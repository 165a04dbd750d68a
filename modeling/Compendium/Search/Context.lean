import Compendium.Document
import Compendium.Number.Scalar
import Compendium.Order

/-! Neighbours of matches: chunks of the same document that stand near a match are shown with it. -/
namespace Compendium.Search

open Compendium.Number

variable {K : Type} [Scalar K]

/-- How many neighbours are added, and what they count. A negative limit leaves that many out at the end. -/
structure Expansion (K : Type) where
  fromMatches : Int
  perMatch : Int
  distance : Int
  perDocument : Int
  factor : K

def Expansion.standard : Expansion K where
  fromMatches := 3
  perMatch := 4
  distance := 2
  perDocument := 8
  factor := Scalar.ratio 8 10

def gap (a b : Int) : Nat := (a - b).natAbs

/-- Whether one pair of a distance and a position comes before another or is equal to it. -/
def nearerOrEqual (a b : Nat × Int) : Bool := a.1 < b.1 || (a.1 = b.1 && a.2 ≤ b.2)

/-- The matches without those whose chunk came earlier; `seen` holds the chunks met before. -/
def distinct (seen : List String) : List (Match K) → List (Match K)
  | [] => []
  | m :: r => if seen.contains m.chunk.id then distinct seen r else m :: distinct (m.chunk.id :: seen) r

/-- Puts a match into its document's group; a new group comes last. -/
def addToGroup (m : Match K) : List (String × List (Match K)) → List (String × List (Match K))
  | [] => [(m.header.id, [m])]
  | (d, ms) :: r => if d = m.header.id then (d, ms ++ [m]) :: r else (d, ms) :: addToGroup m r

def groups (ms : List (Match K)) : List (String × List (Match K)) := ms.foldl (fun g m => addToGroup m g) []

/-- The chunks near a match that are not in the result yet, nearest first. -/
def neighboursOf (e : Expansion K) (target : Chunk) (chunks : List Chunk) (seen : List String) : List Chunk :=
  let near := chunks.filter fun c =>
    c.id != target.id && !seen.contains c.id && 0 < gap c.index target.index && gap c.index target.index ≤ e.distance
  upTo e.perMatch
    (near.mergeSort fun a b => nearerOrEqual (gap a.index target.index, a.index) (gap b.index target.index, b.index))

/-- Keeps a chunk; one with the same id is replaced in its place. -/
def keepChunk (c : Chunk) : List Chunk → List Chunk
  | [] => [c]
  | d :: r => if d.id = c.id then c :: r else d :: keepChunk c r

def least : List Nat → Nat
  | [] => 0
  | [n] => n
  | n :: r => min n (least r)

/-- The neighbours to add for one document, nearest to any of its matches first. -/
def neighbours (e : Expansion K) (ms : List (Match K)) (chunks : List Chunk) (seen : List String) : List Chunk :=
  let top := upTo e.fromMatches (ms.mergeSort fun a b => !Scalar.lt a.similarity b.similarity)
  let found := (top.flatMap fun m => neighboursOf e m.chunk chunks seen).foldl (fun kept c => keepChunk c kept) []
  let nearness (c : Chunk) : Nat × Int := (least (ms.map fun m => gap c.index m.chunk.index), c.index)
  upTo e.perDocument (found.mergeSort fun a b => nearerOrEqual (nearness a) (nearness b))

def best (first : K) (rest : List K) : K := rest.foldl Scalar.larger first

def addedFor (e : Expansion K) (ms : List (Match K)) (chunks : List Chunk) (seen : List String) : List (Match K) :=
  match ms with
  | [] => []
  | m :: r =>
    let mark := best m.similarity (r.map (·.similarity)) * e.factor
    (neighbours e ms chunks seen).map fun c => ⟨c, m.header, mark, mark, true⟩

/-- Adds the neighbours of each group in turn. A document whose chunks cannot be listed is passed over. -/
def addGroups {ε : Type} (e : Expansion K) (chunksOf : String → Except ε (List Chunk)) (seen : List String) :
    List (String × List (Match K)) → List (Match K)
  | [] => []
  | (d, ms) :: r =>
    match chunksOf d with
    | .error _ => addGroups e chunksOf seen r
    | .ok chunks =>
      let added := addedFor e ms chunks seen
      added ++ addGroups e chunksOf (seen ++ added.map (·.chunk.id)) r

/-- The matches, each chunk once, followed by the neighbours of each document's best matches. -/
def expand {ε : Type} (e : Expansion K) (chunksOf : String → Except ε (List Chunk)) (ms : List (Match K)) :
    List (Match K) :=
  let originals := distinct [] ms
  originals ++ addGroups e chunksOf (originals.map (·.chunk.id)) (groups ms)

end Compendium.Search
