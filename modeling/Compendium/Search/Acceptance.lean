import Compendium.Document
import Compendium.Order
import Compendium.Search.Lexical

/-! Which candidates a search accepts, and how it ranks them. -/
namespace Compendium.Search

open Compendium.Number

variable {K : Type} [Scalar K]

structure Tuning (K : Type) where
  noiseFloor : K
  strongKeyword : K
  relaxFactor : K
  crossLingualFloor : K
  keywordFloor : K
  fallbackFloor : K
  topK : Int
  threshold : K
  hybridWeight : K

/-- The tuning that is used unless another one is given. -/
def Tuning.standard : Tuning K where
  noiseFloor := Scalar.ratio 1 10
  strongKeyword := Scalar.ratio 3 10
  relaxFactor := Scalar.ratio 85 100
  crossLingualFloor := Scalar.ratio 6 10
  keywordFloor := Scalar.ratio 55 100
  fallbackFloor := Scalar.ratio 55 100
  topK := 5
  threshold := Scalar.ratio 7 10
  hybridWeight := Scalar.ratio 7 10

structure Rated (K : Type) where
  candidate : Candidate
  similarity : K

/-- A candidate above the noise, with its word overlap. A strong one shares words with its document's
category or title. -/
structure Scored (K : Type) where
  candidate : Candidate
  similarity : K
  lexical : K
  strong : Bool

def score (t : Tuning K) (query : String) (r : Rated K) : Scored K :=
  let text : K := lexicalScore query r.candidate.chunk.text
  let category : K := lexicalScore query r.candidate.header.category
  let title : K := lexicalScore query r.candidate.header.title
  { candidate := r.candidate
    similarity := r.similarity
    lexical := Scalar.larger (Scalar.larger text category) title
    strong := Scalar.lt t.strongKeyword category || Scalar.lt t.strongKeyword title }

/-- Most similar first; equals keep their order. -/
def bySimilarity (xs : List (Scored K)) : List (Scored K) :=
  xs.mergeSort fun a b => !Scalar.lt a.similarity b.similarity

def scoredOf (t : Tuning K) (query : String) (rated : List (Rated K)) : List (Scored K) :=
  bySimilarity ((rated.filter fun r => !Scalar.lt r.similarity t.noiseFloor).map (score t query))

inductive Fallback (K : Type) where
  | notNeeded
  | nothingRelevant (best : K)
  | toFloor (best : K)

structure Verdict (K : Type) where
  effective : K
  relaxed : Bool
  fallback : Fallback K
  accepted : List (Scored K)

/-- Whether a candidate passes the effective threshold, or is strong and passes the keyword threshold. -/
def passes (effective keyword : K) (s : Scored K) : Bool :=
  Scalar.le effective s.similarity || (s.strong && Scalar.le keyword s.similarity)

/-- Judges sorted candidates. Without a strong one the threshold is relaxed. When none passes, those above a
floor are taken, unless even the best lies below it. -/
def judge (t : Tuning K) (threshold : K) (scored : List (Scored K)) : Verdict K :=
  match scored with
  | [] => ⟨threshold, false, .notNeeded, []⟩
  | best :: _ =>
    let relaxed := !scored.any fun s => s.strong
    let effective := if relaxed then Scalar.larger (threshold * t.relaxFactor) t.crossLingualFloor else threshold
    let keyword := Scalar.larger (effective * t.relaxFactor) t.keywordFloor
    let accepted := scored.filter (passes effective keyword)
    if accepted.isEmpty then
      if Scalar.lt best.similarity t.fallbackFloor then ⟨effective, relaxed, .nothingRelevant best.similarity, []⟩
      else
        ⟨effective, relaxed, .toFloor best.similarity,
          scored.filter fun s => Scalar.le t.fallbackFloor s.similarity⟩
    else ⟨effective, relaxed, .notNeeded, accepted⟩

/-- A ranked match: its score blends similarity and word overlap. -/
def toMatch (weight : K) (s : Scored K) : Match K where
  chunk := s.candidate.chunk
  header := s.candidate.header
  similarity := s.similarity
  score := weight * s.similarity + (Scalar.ofNat 1 - weight) * Scalar.smaller s.lexical (Scalar.ofNat 1)
  expanded := false

def rank (t : Tuning K) (query : String) (threshold : K) (topK : Int) (weight : K) (rated : List (Rated K)) :
    List (Match K) :=
  (upTo topK (judge t threshold (scoredOf t query rated)).accepted).map (toMatch weight)

end Compendium.Search
