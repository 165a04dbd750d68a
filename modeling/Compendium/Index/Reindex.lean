import Compendium.Base
import Compendium.Embedding.Prompt
import Compendium.Segment.Basic

/-! Reindexing a document: its segments are embedded one by one, and then its chunks are replaced in one step. -/
namespace Compendium

open Number (Numeral)

structure Indexer where
  budget : Segment.Budget := .standard
  /-- How many documents may be worked on at a time. -/
  lanes : Int := 1
  /-- The longest time in seconds that the embedding of a chunk may take. -/
  embedLimit : Option Numeral := none

/-- What reindexing a document came to. -/
structure Reindexed where
  document : String
  segments : Nat
  chunks : List Chunk
  failed : Nat

namespace Indexer

def make (budget : Segment.Budget) (lanes : Int) (embedLimit : Option Numeral) : Except Fault Indexer :=
  if lanes ≤ 0 then .error .lanesNotPositive else .ok ⟨budget, lanes, embedLimit⟩

/-- Asks for the embedding of a text when `left` seconds are left for the whole work. A provider that does
not answer uses up the time for one embedding, or all the time that is left. -/
def embed (limit : Option Numeral) (left : Option Float) (text : String) :
    Action (Except Fault Embedding × Option Float) := do
  match ← Action.ask text with
  | .vector v => return (.ok v, left)
  | .fails e => return (.error e, left)
  | .hangs =>
    match limit, left with
    | none, _ => throw .cancelled
    | some _, none => return (.error .timeout, none)
    | some t, some r => if r ≤ t.toFloat then throw .cancelled else return (.error .timeout, some (r - t.toFloat))

/-- Failures that cost a chunk and not the whole document. -/
def isPassing (e : Fault) : Bool := e.isA .embedding || e.isA .timeout

/-- Embeds segments from a position on, after some chunks were made and some segments failed. Chunks are
numbered without gaps. -/
def embedAll (ix : Indexer) (d : Document) :
    (left : Option Float) → (position : Nat) → (made : List Chunk) → (failed : Nat) → List String →
      Action (List Chunk × Nat)
  | _, _, made, failed, [] => return (made, failed)
  | left, position, made, failed, s :: rest => do
    let (result, left) ← embed ix.embedLimit left (Embedding.chunkInput d.category d.title s)
    match result with
    | .ok v =>
      let chunk : Chunk := ⟨← Action.newId, d.id, made.length, s, some v, some (← Action.now)⟩
      embedAll ix d left (position + 1) (made ++ [chunk]) failed rest
    | .error e =>
      if !isPassing e then throw e
      Action.log .warning "indexer" "_reindex" "Skipping chunk after embedding failure"
        [("document_id", .text d.id), ("segment", .nat position), ("error", .text e.message)]
      embedAll ix d left (position + 1) made (failed + 1) rest

/-- The segments of a document; that a text which is not blank was cut is logged. -/
def segmentsOf (ix : Indexer) (d : Document) : Action (List String) := do
  let segments := Segment.segmentText ix.budget d.content
  if !Text.isBlankText d.content then
    Action.log .debug "chunking" "segment" "Segmented document"
      [("chars", .nat d.content.length), ("chunks", .nat segments.length)]
  return segments

def report (d : Document) (r : Reindexed) : Action Unit :=
  if r.segments != 0 && r.chunks.isEmpty then
    Action.log .error "indexer" "_reindex" "Document has no indexed chunks after reindex"
      [("document_id", .text r.document), ("segments", .nat r.segments)]
  else
    Action.log .info "indexer" "_reindex" "Indexed document"
      [("document_id", .text r.document), ("title", .text d.title), ("chunks", .nat r.chunks.length),
        ("failed", .nat r.failed)]

/-- The work of a reindexing: the document is read, embedded and given its chunks. -/
def remake (ix : Indexer) (left : Option Float) (id : String) : Action Reindexed := do
  let d ← Action.document id
  let segments ← ix.segmentsOf d
  let (chunks, failed) ← embedAll ix d left 0 [] 0 segments
  Action.replaceChunks id chunks
  Action.measure (Meter.indexed chunks.length failed)
  let r : Reindexed := ⟨id, segments.length, chunks, failed⟩
  report d r
  return r

def reindexWithin (ix : Indexer) (left : Option Float) (id : String) : Action Reindexed :=
  Action.probed "indexer.reindex" [("document_id", .text id)] (ix.remake left id)

/-- Reindexes a document. When the time is over the call fails and the chunks stay as they were. -/
def reindex (ix : Indexer) (id : String) (limit : Option Numeral := none) : Action Reindexed :=
  match limit with
  | none => ix.reindexWithin none id
  | some t =>
    if t.toFloat ≤ 0.0 then throw .timeout
    else do
      match ← Action.attempt (ix.reindexWithin (some t.toFloat) id) with
      | .error .cancelled => throw .timeout
      | outcome => Action.ofExcept outcome

end Indexer

end Compendium
