import Compendium.Json.Basic

/-! Counters and histograms, created when they are first used. -/
namespace Compendium

open Number (Numeral)

/-- What happens to instruments, in order. -/
inductive Measurement where
  | createCounter (name description unit : String)
  | createHistogram (name description unit : String)
  | add (name : String) (value : Numeral) (attributes : Option (List (String × Json)))
  | record (name : String) (value : Numeral) (attributes : Option (List (String × Json)))

/-- The instruments made so far and what was measured. A silent meter keeps no measurements. -/
structure Meter where
  silent : Bool := false
  counters : List String := []
  histograms : List String := []
  measured : List Measurement := []

namespace Meter

def note (m : Measurement) (meter : Meter) : Meter :=
  if meter.silent then meter else { meter with measured := meter.measured ++ [m] }

def counter (name description unit : String) (meter : Meter) : Meter :=
  if meter.counters.contains name then meter
  else { meter with counters := meter.counters ++ [name] }.note (.createCounter name description unit)

def histogram (name description unit : String) (meter : Meter) : Meter :=
  if meter.histograms.contains name then meter
  else { meter with histograms := meter.histograms ++ [name] }.note (.createHistogram name description unit)

def add (name description unit : String) (value : Numeral) (attributes : Option (List (String × Json)))
    (meter : Meter) : Meter :=
  (meter.counter name description unit).note (.add name value attributes)

def observe (name description unit : String) (value : Numeral) (attributes : Option (List (String × Json)))
    (meter : Meter) : Meter :=
  (meter.histogram name description unit).note (.record name value attributes)

/-- Measures a query: that there was one, how long it took, and how many results it had. -/
def queried (duration : Numeral) (results : Int) (filtered : Bool) (meter : Meter) : Meter :=
  let attributes := some [("filtered", Json.text (if filtered then "true" else "false"))]
  let meter := meter.add "vulnkb_rag_queries_total" "Knowledge base queries" "1" (.whole 1) attributes
  let meter := meter.observe "vulnkb_rag_query_duration_seconds" "Knowledge base query duration" "s" duration attributes
  meter.observe "vulnkb_rag_query_results" "Results returned per query" "1" (.whole results) attributes

/-- Measures a reindex: the chunks stored and, if there are any, the chunks that failed. -/
def indexed (stored failed : Int) (meter : Meter) : Meter :=
  let meter := meter.add "vulnkb_index_chunks_total" "Chunks written to the index" "1" (.whole stored) none
  if failed = 0 then meter
  else
    meter.add "vulnkb_embedding_failures_total" "Chunks skipped after embedding failure" "1" (.whole failed) none

def timed (name : String) (duration : Numeral) (attributes : List (String × Json)) (meter : Meter) : Meter :=
  meter.observe (name ++ "_duration") "Operation duration" "s" duration (some attributes)

end Meter

end Compendium
