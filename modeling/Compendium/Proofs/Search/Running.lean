import Compendium.Proofs.Runs
import Compendium.Proofs.Search.Verdict
import Compendium.Search.Retrieval

/-!
The running search: it embeds the query, rates the candidates of the store, ranks them, and counts what came of it.
-/
namespace Compendium

open Compendium.Action (runOn runOn_bind Leads Frame)
open Number (Numeral)
open Search (Rated Verdict)

def Tally.counting (t : Tally) (v : Verdict Float) (ms : List (Match Float)) : Tally where
  queries := t.queries + 1
  emptyResults := t.emptyResults + if ms.isEmpty then 1 else 0
  fallbacks := t.fallbacks + if v.fallback.taken then 1 else 0
  relaxed := t.relaxed + if v.relaxed then 1 else 0

theorem Tally.counting_congr (t : Tally) {v v' : Verdict Float} {ms ms' : List (Match Float)}
    (hrelaxed : v.relaxed = v'.relaxed) (hfallback : v.fallback.taken = v'.fallback.taken)
    (hempty : ms.isEmpty = ms'.isEmpty) : t.counting v ms = t.counting v' ms' := by
  rw [counting, counting, hrelaxed, hfallback, hempty]

namespace Retriever

def verdictOn (rt : Retriever) (r : Request) (rated : List (Rated Float)) : Verdict Float :=
  Search.judge rt.tuning (rt.thresholdOf r).toFloat (Search.scoredOf rt.tuning r.query rated)

def ranking (rt : Retriever) (r : Request) (rated : List (Rated Float)) : List (Match Float) :=
  Search.rank rt.tuning r.query (rt.thresholdOf r).toFloat (rt.topKOf r) rt.weight rated

/-- The candidates of a request, rated by the embedding of its query. -/
def rated (r : Request) (limit : Option Numeral) (b : Base) : Except Fault (List (Rated Float)) := do
  let vector ← (runOn (embedQuery r limit) b).1
  let candidates ← (Store.candidates r.riskType b.store).outcome
  return candidates.map (rate vector)

/-- Explaining a verdict cannot fail; it counts whether the threshold was relaxed, and whether the search fell back. -/
theorem runOn_explain (rt : Retriever) (threshold : Numeral) (v : Verdict Float) (b : Base) :
    ∃ c, runOn (rt.explain threshold v) b = (.ok (), c) ∧
      c.tally =
        { b.tally with
          relaxed := b.tally.relaxed + if v.relaxed then 1 else 0
          fallbacks := b.tally.fallbacks + if v.fallback.taken then 1 else 0 } := by
  obtain ⟨effective, relaxed, fallback, accepted⟩ := v
  cases relaxed <;> cases fallback <;> exact ⟨_, rfl, rfl⟩

/-- Embedding the query changes nothing but what the provider was asked for. -/
theorem runOn_embedQuery (r : Request) (limit : Option Numeral) (b : Base) :
    ∃ asked, (runOn (embedQuery r limit) b).2 = { b with asked := asked } := by
  unfold embedQuery
  split
  · exact ⟨b.asked, rfl⟩
  · rw [runOn_bind]
    cases hask : b.provider b.asked (Embedding.queryInput r.query r.riskType) <;> exact ⟨_, by simp [hask]; rfl⟩

/-- The store has no part in embedding the query. -/
theorem embedQuery_outcome (r : Request) (limit : Option Numeral) (b : Base) (s : Store) :
    (runOn (embedQuery r limit) { b with store := s }).1 = (runOn (embedQuery r limit) b).1 := by
  unfold embedQuery
  split
  · rfl
  · rw [runOn_bind, runOn_bind]
    cases hask : b.provider b.asked (Embedding.queryInput r.query r.riskType) <;> simp [hask]

/-- Finding matches fails if there is nothing to rate, and counts nothing then. -/
theorem runOn_find_error (rt : Retriever) {r : Request} {limit : Option Numeral} {b : Base} {e : Fault}
    (h : rated r limit b = .error e) : ∃ c, runOn (rt.find r limit) b = (.error e, c) ∧ c.tally = b.tally := by
  obtain ⟨asked, hasked⟩ := runOn_embedQuery r limit b
  rw [rated] at h
  rw [find, runOn_bind]
  generalize runOn (embedQuery r limit) b = embedded at h hasked
  obtain ⟨result, c⟩ := embedded
  obtain rfl : c = { b with asked := asked } := hasked
  cases result with
  | error e' =>
    cases h
    exact ⟨_, rfl, rfl⟩
  | ok vector =>
    dsimp only
    rw [runOn_bind, Action.runOn_readStore]
    cases hread : (Store.candidates r.riskType b.store).outcome with
    | error e' =>
      rw [hread] at h
      cases h
      exact ⟨_, rfl, rfl⟩
    | ok ks =>
      rw [hread] at h
      cases h

/-- Otherwise it gives the ranked candidates, and counts how they were judged. -/
theorem runOn_find_ok (rt : Retriever) {r : Request} {limit : Option Numeral} {b : Base} {xs : List (Rated Float)}
    (h : rated r limit b = .ok xs) :
    ∃ found c, runOn (rt.find r limit) b = (.ok found, c) ∧ found.matched = rt.ranking r xs ∧
      c.tally =
        { b.tally with
          relaxed := b.tally.relaxed + if (rt.verdictOn r xs).relaxed then 1 else 0
          fallbacks := b.tally.fallbacks + if (rt.verdictOn r xs).fallback.taken then 1 else 0 } := by
  obtain ⟨vector, hvector, h⟩ := bind_eq_ok.1 h
  obtain ⟨ks, hks, h⟩ := bind_eq_ok.1 h
  cases h
  obtain ⟨asked, hasked⟩ := runOn_embedQuery r limit b
  have hembed : runOn (embedQuery r limit) b = (.ok vector, { b with asked := asked }) := Prod.ext hvector hasked
  have hread := Action.runOn_readStore (Store.candidates r.riskType) { b with asked := asked }
  rw [hks] at hread
  obtain ⟨c, hexplain, hcount⟩ := rt.runOn_explain (rt.thresholdOf r) (rt.verdictOn r (ks.map (rate vector))) _
  let found : Found :=
    ⟨ks.length, (Search.scoredOf rt.tuning r.query (ks.map (rate vector))).length,
      rt.ranking r (ks.map (rate vector))⟩
  have hfind : runOn (rt.find r limit) b = (.ok found, c) := by
    apply Action.runOn_bind_ok.2 ⟨vector, _, hembed, _⟩
    apply Action.runOn_bind_ok.2 ⟨ks, _, hread, _⟩
    exact Action.runOn_bind_ok.2 ⟨(), c, hexplain, rfl⟩
  exact ⟨found, c, hfind, rfl, hcount⟩

/-- A blank query is refused before anything is asked. -/
theorem runOn_search_blank (rt : Retriever) {r : Request} (hquery : Text.isBlankText r.query = true)
    (limit : Option Numeral) (b : Base) : runOn (rt.search r limit) b = (.error .emptyQuery, b) := by
  rw [search, hquery]
  rfl

/-- What a search comes to: it fails if there is nothing to rate; otherwise it gives the ranked candidates and counts.
-/
theorem runOn_search (rt : Retriever) {r : Request} (hquery : Text.isBlankText r.query = false)
    (limit : Option Numeral) (b : Base) :
    ∃ c, runOn (rt.search r limit) b = ((rated r limit b).map (rt.ranking r), c) ∧
      c.tally =
        match rated r limit b with
        | .ok xs => b.tally.counting (rt.verdictOn r xs) (rt.ranking r xs)
        | .error _ => b.tally := by
  obtain ⟨entry, hprobe⟩ := Action.runOn_probed "retriever.search"
    [("top_k", .int (rt.topKOf r)), ("filtered", .bool r.isFiltered)] (rt.find r limit) b
  rw [search, hquery, if_neg Bool.false_ne_true, runOn_bind, Action.runOn_get]
  dsimp only
  rw [runOn_bind, hprobe]
  cases h : rated r limit b with
  | error e =>
    obtain ⟨c, hfind, hcount⟩ := rt.runOn_find_error h
    rw [hfind]
    exact ⟨_, rfl, hcount⟩
  | ok xs =>
    obtain ⟨⟨candidates, scored, matched⟩, c, hfind, hmatched, hcount⟩ := rt.runOn_find_ok h
    obtain rfl : matched = rt.ranking r xs := hmatched
    rw [hfind]
    refine ⟨_, rfl, ?_⟩
    change { c.tally with
      queries := c.tally.queries + 1
      emptyResults := c.tally.emptyResults + if (rt.ranking r xs).isEmpty then 1 else 0 } = _
    rw [hcount]
    rfl

/-- What a search comes to: it fails if the query is blank, is not embedded, or if the candidates cannot be
read; otherwise it gives the ranked candidates. -/
theorem search_outcome (rt : Retriever) (r : Request) (limit : Option Numeral) (b : Base) :
    (runOn (rt.search r limit) b).1 =
      if Text.isBlankText r.query then .error .emptyQuery
      else do
        let vector ← (runOn (embedQuery r limit) b).1
        let candidates ← (Store.candidates r.riskType b.store).outcome
        return Search.rank rt.tuning r.query (rt.thresholdOf r).toFloat (rt.topKOf r) rt.weight
          (candidates.map (rate vector)) := by
  cases hquery : Text.isBlankText r.query with
  | true =>
    rw [rt.runOn_search_blank hquery]
    rfl
  | false =>
    obtain ⟨c, hrun, -⟩ := rt.runOn_search hquery limit b
    rw [hrun, rated]
    cases (runOn (embedQuery r limit) b).1 with
    | error e => rfl
    | ok vector =>
      cases (Store.candidates r.riskType b.store).outcome with
      | error e => rfl
      | ok candidates => rfl

/-! What a search leaves as it is. -/

/-- Relations that look neither at what was asked and counted nor at what was measured. -/
structure Oversees (R : Base → Base → Prop) : Prop extends Frame R where
  asking : ∀ b asked, R b { b with asked := asked }
  tallying : ∀ b tally, R b { b with tally := tally }
  measuring : ∀ b meter, R b { b with meter := meter }

section
variable {R : Base → Base → Prop} (hR : Oversees R)
include hR

theorem leads_tally (f : Tally → Tally) : Leads R (tally f) := fun b => hR.tallying b _

theorem leads_embedQuery (r : Request) (limit : Option Numeral) : Leads R (embedQuery r limit) := fun b => by
  obtain ⟨asked, hasked⟩ := runOn_embedQuery r limit b
  rw [hasked]
  exact hR.asking b asked

theorem leads_explain (rt : Retriever) (threshold : Numeral) (v : Verdict Float) :
    Leads R (rt.explain threshold v) := by
  have hF := hR.toFrame
  have hnoted (f : Tally → Tally) (message : String) (fields : List (String × Json)) {rest : Action Unit}
      (h : Leads R rest) : Leads R (do tally f; log "_accept" message fields; rest) :=
    Action.leads_bind hF (leads_tally hR f) fun _ => Action.leads_bind hF (Action.leads_log hF _ _ _ _ _) fun _ => h
  obtain ⟨effective, relaxed, fallback, accepted⟩ := v
  cases fallback with
  | notNeeded =>
    have hrest : Leads R (pure ()) := Action.leads_pure hF ()
    cases relaxed with
    | false => exact hrest
    | true => exact hnoted _ _ _ hrest
  | nothingRelevant best =>
    have hrest := Action.leads_log hF .debug "retriever" "_accept" "Nothing relevant in corpus"
      [("best", number best), ("floor", number rt.tuning.fallbackFloor)]
    cases relaxed with
    | false => exact hrest
    | true => exact hnoted _ _ _ hrest
  | toFloor best =>
    have hrest := Action.leads_bind hF (leads_tally hR fun t => { t with fallbacks := t.fallbacks + 1 }) fun _ =>
      Action.leads_log hF .debug "retriever" "_accept" "Falling back to floor"
        [("best", number best), ("floor", number rt.tuning.fallbackFloor)]
    cases relaxed with
    | false => exact hrest
    | true => exact hnoted _ _ _ hrest

/-- A search asks, counts and measures, and changes nothing else. -/
theorem leads_search (rt : Retriever) (r : Request) (limit : Option Numeral) : Leads R (rt.search r limit) := by
  have hF := hR.toFrame
  have hfind : Leads R (rt.find r limit) := by
    refine Action.leads_bind hF (leads_embedQuery hR r limit) fun _ => ?_
    refine Action.leads_bind hF (Action.leads_readStore hF _) fun _ => ?_
    exact Action.leads_bind hF (leads_explain hR rt _ _) fun _ => Action.leads_pure hF _
  unfold search
  split
  · exact Action.leads_throw hF _
  · refine Action.leads_bind hF (Action.leads_get hF) fun _ => ?_
    refine Action.leads_bind hF (Action.leads_probed hF _ _ hfind) fun _ => ?_
    refine Action.leads_bind hF (leads_tally hR _) fun _ => ?_
    refine Action.leads_bind hF (Action.leads_get hF) fun _ => ?_
    refine Action.leads_bind hF (fun b => hR.measuring b _) fun _ => ?_
    exact Action.leads_bind hF (Action.leads_log hF _ _ _ _ _) fun _ => Action.leads_pure hF _

end

end Retriever

end Compendium
