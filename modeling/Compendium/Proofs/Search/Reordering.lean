import Mathlib.Data.List.Sort
import Compendium.Proofs.Number.Comparison
import Compendium.Proofs.Search.Running
import Compendium.Proofs.Store.Category

/-!
The order in which a store lists its candidates does not matter. Two rankings of the same candidates have the same
places one after another, so they can only differ among candidates of one similarity, and nothing that the judge
decides depends on which of these comes first.
-/
namespace Compendium

open Number

namespace Search

section Scale

variable {K P : Type} [Scalar K] [LinearOrder P] [OrderBot P] (sc : Scale K P)

structure Ranked (xs : List (Scored K)) : Prop where
  placed : ∀ s ∈ xs, ⊥ < sc.place s.similarity
  descending : xs.Pairwise fun a b => sc.place b.similarity ≤ sc.place a.similarity

variable {sc}

theorem ranked_bySimilarity {xs : List (Scored K)} (h : ∀ s ∈ xs, ⊥ < sc.place s.similarity) :
    Ranked sc (bySimilarity xs) where
  placed s hs := h s (List.mem_mergeSort.1 hs)
  descending := by
    have hplaces : (bySimilarity xs).map (fun s => sc.place s.similarity) =
        (xs.map fun s => sc.place s.similarity).mergeSort fun p p' => decide (p' ≤ p) :=
      List.map_mergeSort fun a ha b _ => sc.not_lt_eq (h a ha) b.similarity
    have hsorted : ((xs.map fun s => sc.place s.similarity).mergeSort fun p p' => decide (p' ≤ p)).Pairwise
        fun p p' => decide (p' ≤ p) = true := by
      apply List.pairwise_mergeSort
      · intro p p' p'' hp hp'
        exact decide_eq_true ((of_decide_eq_true hp').trans (of_decide_eq_true hp))
      · intro p p'
        simpa using le_total p' p
    rw [← hplaces, List.pairwise_map] at hsorted
    exact hsorted.imp of_decide_eq_true

namespace Ranked

variable {xs ys : List (Scored K)}

theorem sublist (h : Ranked sc ys) (hs : xs.Sublist ys) : Ranked sc xs where
  placed s hx := h.placed s (hs.subset hx)
  descending := h.descending.sublist hs

/-- Two rankings of the same candidates have the same places one after another. -/
theorem places_eq (h : Ranked sc xs) (h' : Ranked sc ys) (hp : xs.Perm ys) :
    (xs.map fun s => sc.place s.similarity) = ys.map fun s => sc.place s.similarity := by
  apply List.Perm.eq_of_pairwise (fun p p' _ _ hle hle' => le_antisymm hle' hle) _ _ (hp.map _)
  · exact List.pairwise_map.2 h.descending
  · exact List.pairwise_map.2 h'.descending

/-- Candidates with places of their own have one ranking only. -/
theorem eq_of_distinct (h : Ranked sc xs) (h' : Ranked sc ys) (hp : xs.Perm ys)
    (hd : (xs.map fun s => sc.place s.similarity).Nodup) : xs = ys := by
  apply List.Perm.eq_of_pairwise _ h.descending h'.descending hp
  intro a b ha hb hle hle'
  exact List.inj_on_of_nodup_map hd ha (hp.mem_iff.2 hb) (le_antisymm hle' hle)

end Ranked

theorem scoredOf_perm {rated rated' : List (Rated K)} (h : rated.Perm rated') (t : Tuning K) (query : String) :
    (scoredOf t query rated).Perm (scoredOf t query rated') :=
  (List.mergeSort_perm _ _).trans (((h.filter _).map _).trans (List.mergeSort_perm _ _).symm)

theorem ranked_scoredOf {rated : List (Rated K)} (h : ∀ r ∈ rated, ⊥ < sc.place r.similarity) (t : Tuning K)
    (query : String) : Ranked sc (scoredOf t query rated) := by
  apply ranked_bySimilarity
  intro s hs
  obtain ⟨r, hr, rfl⟩ := List.mem_map.1 hs
  exact h r (List.mem_of_mem_filter hr)

/-- Places of rated candidates that are their own stay so when the candidates are scored. -/
theorem nodup_scoredOf {rated : List (Rated K)} (h : (rated.map fun r => sc.place r.similarity).Nodup) (t : Tuning K)
    (query : String) : ((scoredOf t query rated).map fun s => sc.place s.similarity).Nodup := by
  have hperm := (List.mergeSort_perm ((rated.filter fun r => !Scalar.lt r.similarity t.noiseFloor).map (score t query))
    fun a b => !Scalar.lt a.similarity b.similarity).map fun s => sc.place s.similarity
  refine hperm.nodup_iff.2 ?_
  rw [List.map_map]
  exact (List.filter_sublist.map fun r : Rated K => sc.place r.similarity).nodup h

section Judge

variable {xs ys : List (Scored K)} (hp : xs.Perm ys) (t : Tuning K) (threshold : K)
include hp

theorem passing_perm : (t.passing threshold xs).Perm (t.passing threshold ys) := by
  have hforce : t.inForce threshold xs = t.inForce threshold ys := by
    rw [Tuning.inForce, Tuning.inForce, noneStrong_perm hp]
  rw [Tuning.passing, Tuning.passing, hforce]
  exact hp.filter _

/-- Whether the threshold is relaxed does not hang on the order of the candidates. -/
theorem relaxed_perm : (judge t threshold xs).relaxed = (judge t threshold ys).relaxed := by
  rw [(judge_judged t threshold xs).relaxed_eq, (judge_judged t threshold ys).relaxed_eq, hp.isEmpty_eq,
    noneStrong_perm hp]

variable (h : Ranked sc xs) (h' : Ranked sc ys)
include h h'

/-- The most similar candidates of two rankings reach the floor together. -/
theorem taken_perm : (judge t threshold xs).fallback.taken = (judge t threshold ys).fallback.taken := by
  have hplaces := h.places_eq h' hp
  have hhead : (xs.head?.any fun best => !Scalar.lt best.similarity t.fallbackFloor) =
      ys.head?.any fun best => !Scalar.lt best.similarity t.fallbackFloor := by
    cases xs with
    | nil => rw [List.nil_perm.1 hp]
    | cons best rest =>
      cases ys with
      | nil => cases List.perm_nil.1 hp
      | cons best' rest' =>
        have hbest : sc.place best.similarity = sc.place best'.similarity := (List.cons.inj hplaces).1
        rw [List.head?_cons, List.head?_cons, Option.any_some, Option.any_some, sc.lt_congr hbest]
  rw [(judge_judged t threshold xs).taken_eq, (judge_judged t threshold ys).taken_eq,
    (passing_perm hp t threshold).isEmpty_eq, hhead]

/-- The same candidates are accepted, in some order. -/
theorem accepted_perm : (judge t threshold xs).accepted.Perm (judge t threshold ys).accepted := by
  rw [(judge_judged t threshold xs).accepted_eq, (judge_judged t threshold ys).accepted_eq,
    taken_perm hp t threshold h h']
  split
  · exact hp.filter _
  · exact passing_perm hp t threshold

end Judge

section Rank

variable {rated rated' : List (Rated K)} (hp : rated.Perm rated') (h : ∀ r ∈ rated, ⊥ < sc.place r.similarity)
  (t : Tuning K) (query : String) (threshold weight : K) (topK : Int)
include hp h

/-- The rankings of candidates that are listed in two orders. -/
theorem ranked_both : Ranked sc (scoredOf t query rated) ∧ Ranked sc (scoredOf t query rated') :=
  ⟨ranked_scoredOf h t query, ranked_scoredOf (fun r hr => h r (hp.mem_iff.2 hr)) t query⟩

/-- Reordered candidates are ranked at the same places of the scale. -/
theorem rank_places_eq :
    ((rank t query threshold topK weight rated).map fun m => sc.place m.similarity) =
      (rank t query threshold topK weight rated').map fun m => sc.place m.similarity := by
  obtain ⟨hr, hr'⟩ := ranked_both hp h t query
  have hplaces := (hr.sublist (judge_judged t threshold _).accepted_sublist).places_eq
    (hr'.sublist (judge_judged t threshold _).accepted_sublist)
    (accepted_perm (scoredOf_perm hp t query) t threshold hr hr')
  have hupTo (xs : List (Scored K)) : ((upTo topK xs).map (toMatch weight)).map (fun m => sc.place m.similarity) =
      upTo topK (xs.map fun s => sc.place s.similarity) := by
    rw [List.map_map, ← upTo_map]
    rfl
  rw [rank, rank, hupTo, hupTo, hplaces]

/-- Without two candidates at one place the ranking is the same. -/
theorem rank_eq_of_distinct (hd : (rated.map fun r => sc.place r.similarity).Nodup) :
    rank t query threshold topK weight rated = rank t query threshold topK weight rated' := by
  obtain ⟨hr, hr'⟩ := ranked_both hp h t query
  rw [rank, rank, hr.eq_of_distinct hr' (scoredOf_perm hp t query) (nodup_scoredOf hd t query)]

end Rank

end Scale

/-- Numbers at the same places of the scale are equal, one after another. -/
theorem beq_of_places {xs ys : List Float} (hx : ∀ x ∈ xs, ⊥ < floatScale.place x)
    (h : xs.map floatScale.place = ys.map floatScale.place) : (xs == ys) = true := by
  induction xs generalizing ys with
  | nil =>
    rw [List.map_eq_nil_iff.1 h.symm]
    rfl
  | cons x xs ih =>
    cases ys with
    | nil => cases h
    | cons y ys =>
      obtain ⟨hxy, hrest⟩ := List.cons.inj h
      obtain ⟨hplace, hplaces⟩ := List.forall_mem_cons.1 hx
      rw [List.cons_beq_cons, beq_iff_floatPlace.2 ⟨hplace, hxy⟩, ih hplaces hrest]
      rfl

def Comparable (rated : List (Rated Float)) : Prop := ∀ r ∈ rated, r.similarity.isNaN = false

def Distinct (rated : List (Rated Float)) : Prop := rated.Pairwise fun r r' => (r.similarity == r'.similarity) = false

theorem Distinct.nodup_places {rated : List (Rated Float)} (hd : Distinct rated) (hc : Comparable rated) :
    (rated.map fun r => floatScale.place r.similarity).Nodup := by
  rw [List.Nodup, List.pairwise_map]
  apply List.Pairwise.imp_of_mem _ hd
  intro r r' hr _ hne he
  rw [beq_iff_floatPlace.2 ⟨bot_lt_floatPlace (hc r hr), he⟩] at hne
  cases hne

def EquallySimilar (ms ms' : List (Match Float)) : Prop := (ms.map Match.similarity == ms'.map Match.similarity) = true

theorem EquallySimilar.isEmpty_eq {ms ms' : List (Match Float)} (h : EquallySimilar ms ms') :
    ms.isEmpty = ms'.isEmpty := by
  cases ms with
  | nil =>
    cases ms' with
    | nil => rfl
    | cons m' ms' => cases h
  | cons m ms =>
    cases ms' with
    | nil => cases h
    | cons m' ms' => rfl

/-- Rated candidates of two lists are judged alike, and those that are shown are equally similar; they are the same if
no two candidates are. -/
structure RankedAlike (t : Tuning Float) (query : String) (threshold weight : Float) (topK : Int)
    (rated rated' : List (Rated Float)) : Prop where
  relaxed : (judge t threshold (scoredOf t query rated)).relaxed = (judge t threshold (scoredOf t query rated')).relaxed
  fallback : (judge t threshold (scoredOf t query rated)).fallback.taken =
    (judge t threshold (scoredOf t query rated')).fallback.taken
  similar : EquallySimilar (rank t query threshold topK weight rated) (rank t query threshold topK weight rated')
  same : Distinct rated → rank t query threshold topK weight rated = rank t query threshold topK weight rated'

theorem rankedAlike_of_perm {rated rated' : List (Rated Float)} (hp : rated.Perm rated') (hc : Comparable rated)
    (t : Tuning Float) (query : String) (threshold weight : Float) (topK : Int) :
    RankedAlike t query threshold weight topK rated rated' := by
  have hplaced : ∀ r ∈ rated, ⊥ < floatScale.place r.similarity := fun r hr => bot_lt_floatPlace (hc r hr)
  have hperm := scoredOf_perm hp t query
  obtain ⟨hranked, hranked'⟩ := ranked_both hp hplaced t query
  constructor
  case relaxed => exact relaxed_perm hperm t threshold
  case fallback => exact taken_perm hperm t threshold hranked hranked'
  case same => exact fun hd => rank_eq_of_distinct hp hplaced t query threshold weight topK (hd.nodup_places hc)
  case similar =>
    apply beq_of_places
    · intro x hx
      obtain ⟨m, hm, rfl⟩ := List.mem_map.1 hx
      obtain ⟨r, hr, -, -, hsimilarity⟩ := mem_rank hm
      rw [hsimilarity]
      exact hplaced r hr
    · rw [List.map_map, List.map_map]
      exact rank_places_eq hp hplaced t query threshold weight topK

end Search

/-- Two lists of the same things, each in some order; or none of both, for one reason. -/
inductive Reordered {α : Type} : Except Fault (List α) → Except Fault (List α) → Prop where
  | failed (e : Fault) : Reordered (.error e) (.error e)
  | listed {xs ys : List α} (h : xs.Perm ys) : Reordered (.ok xs) (.ok ys)

namespace Retriever

open Compendium.Action (runOn)
open Search (Rated Comparable Distinct EquallySimilar)

/-- What a search finds in two bases: matches of equal similarities, or none for one reason. -/
inductive FoundAlike : Except Fault (List (Match Float)) → Except Fault (List (Match Float)) → Prop where
  | failed (e : Fault) : FoundAlike (.error e) (.error e)
  | found {ms ms' : List (Match Float)} (h : EquallySimilar ms ms') : FoundAlike (.ok ms) (.ok ms')

/-- A search finds in one base what it finds in another, up to the order of equals, and counts the same. -/
structure SearchedAlike (rt : Retriever) (r : Request) (limit : Option Numeral) (b b' : Base) : Prop where
  tally : (runOn (rt.search r limit) b).2.tally = (runOn (rt.search r limit) b').2.tally
  found : FoundAlike (runOn (rt.search r limit) b).1 (runOn (rt.search r limit) b').1
  same : (∀ xs, rated r limit b = .ok xs → Distinct xs) →
    (runOn (rt.search r limit) b).1 = (runOn (rt.search r limit) b').1

variable (rt : Retriever) {r : Request} {limit : Option Numeral} {b : Base} {s : Store}

theorem rated_reordered (limit : Option Numeral)
    (h : Reordered (Store.candidates r.riskType b.store).outcome (Store.candidates r.riskType s).outcome) :
    Reordered (rated r limit b) (rated r limit { b with store := s }) := by
  rw [rated, rated, embedQuery_outcome r limit b s]
  cases (runOn (embedQuery r limit) b).1 with
  | error e => exact .failed e
  | ok vector =>
    dsimp only
    generalize (Store.candidates r.riskType b.store).outcome = x at h
    generalize (Store.candidates r.riskType s).outcome = y at h
    cases h with
    | failed e => exact .failed e
    | listed h => exact .listed (h.map _)

theorem searchedAlike_of_failed {b' c c' : Base} {e : Fault} (hrun : runOn (rt.search r limit) b = (.error e, c))
    (hrun' : runOn (rt.search r limit) b' = (.error e, c')) (htally : c.tally = c'.tally) :
    SearchedAlike rt r limit b b' := by
  constructor
  case tally => rw [hrun, hrun', htally]
  case found =>
    rw [hrun, hrun']
    exact .failed e
  case same =>
    intro _
    rw [hrun, hrun']

/-- Searching a store that lists the candidates in another order. -/
theorem searchedAlike_of_reordered
    (h : Reordered (Store.candidates r.riskType b.store).outcome (Store.candidates r.riskType s).outcome)
    (hc : ∀ xs, rated r limit b = .ok xs → Comparable xs) : SearchedAlike rt r limit b { b with store := s } := by
  cases hquery : Text.isBlankText r.query with
  | true =>
    exact rt.searchedAlike_of_failed (rt.runOn_search_blank hquery limit b) (rt.runOn_search_blank hquery limit _) rfl
  | false =>
    obtain ⟨c, hrun, hcount⟩ := rt.runOn_search hquery limit b
    obtain ⟨c', hrun', hcount'⟩ := rt.runOn_search hquery limit { b with store := s }
    have hrated := rated_reordered limit h
    generalize hx : rated r limit b = x at hrated hrun hcount
    generalize rated r limit { b with store := s } = y at hrated hrun' hcount'
    cases hrated with
    | failed e => exact rt.searchedAlike_of_failed hrun hrun' (hcount.trans hcount'.symm)
    | listed h =>
      have halike := Search.rankedAlike_of_perm h (hc _ hx) rt.tuning r.query (rt.thresholdOf r).toFloat rt.weight
        (rt.topKOf r)
      constructor
      case tally =>
        rw [hrun, hrun', hcount, hcount']
        exact b.tally.counting_congr halike.relaxed halike.fallback halike.similar.isEmpty_eq
      case found =>
        rw [hrun, hrun']
        exact .found halike.similar
      case same =>
        intro hd
        rw [hrun, hrun']
        exact congrArg Except.ok (halike.same (hd _ hx))

end Retriever

namespace Store

/-- Stores of the two kinds still mirror each other after calls that keep their promises and fit. -/
theorem mirrors_after {steps : List Step} {m : Memory} {d : Database} (h : Mirrors m d)
    (hp : Promising steps (memory m)) (hf : ∀ k ∈ steps, k.call.Fits) (hc : ∀ k ∈ steps, k.call ≠ .close) :
    ∃ m' d', (memory m).after (steps.map fun k => (k.here, k.call)) = memory m' ∧
      (table d).after (steps.map fun k => (k.there, k.call)) = table d' ∧ Mirrors m' d' := by
  induction steps generalizing m d with
  | nil => exact ⟨m, d, rfl, rfl, h⟩
  | cons k rest ih =>
    obtain ⟨hfits, hf⟩ := List.forall_mem_cons.1 hf
    obtain ⟨hopen, hc⟩ := List.forall_mem_cons.1 hc
    have hstep := run_agree h hp.1 hfits hopen k.here k.there
    have hrest := hp.2
    simp only [after, List.map_cons, List.foldl_cons] at ih ⊢
    generalize run k.here (memory m) k.call = x at hstep hrest ⊢
    generalize run k.there (table d) k.call = y at hstep ⊢
    cases hstep with
    | both ha h' => exact ih h' hrest hf hc

/-- Stores of the two kinds list the same candidates after such calls, each kind in an order of its own. -/
theorem reordered_after (path : String) {steps : List Step} (hp : Promising steps empty)
    (hf : ∀ k ∈ steps, k.call.Fits) (hc : ∀ k ∈ steps, k.call ≠ .close) (category : Option String) :
    Reordered (candidates category (empty.after (steps.map fun k => (k.here, k.call)))).outcome
      (candidates category ((table ⟨path, true, {}⟩).after (steps.map fun k => (k.there, k.call)))).outcome := by
  obtain ⟨m, d, hm, hd, hmirrors⟩ := mirrors_after (mirrors_empty path) hp hf hc
  obtain ⟨ks, hks, hperm⟩ := hmirrors.candidates_perm category
  rw [empty, hm, hd, candidates, candidates, hks]
  exact .listed hperm.symm

end Store

/-- The order in which candidates are listed does not matter. Where all similarities are numbers, other orders are
judged alike and give equally similar matches, the same ones if no two similarities are equal; so does a search of a
store that lists its candidates in another order, as stores of the two kinds do after the same calls. -/
theorem Retriever.search_reordered :
    (∀ (t : Search.Tuning Float) (query : String) (threshold weight : Float) (topK : Int)
      (rated rated' : List (Search.Rated Float)), rated.Perm rated' → Search.Comparable rated →
        Search.RankedAlike t query threshold weight topK rated rated') ∧
    (∀ (rt : Retriever) (r : Request) (limit : Option Numeral) (b : Base) (s : Store),
      Reordered (Store.candidates r.riskType b.store).outcome (Store.candidates r.riskType s).outcome →
        (∀ xs, rated r limit b = .ok xs → Search.Comparable xs) →
          SearchedAlike rt r limit b { b with store := s }) ∧
    ∀ (steps : List Step) (path : String) (rt : Retriever) (r : Request) (limit : Option Numeral) (b : Base),
      Promising steps .empty → (∀ k ∈ steps, k.call.Fits) → (∀ k ∈ steps, k.call ≠ .close) →
        let memory := Store.empty.after (steps.map fun k => (k.here, k.call))
        let database := (Store.table ⟨path, true, {}⟩).after (steps.map fun k => (k.there, k.call))
        (∀ xs, rated r limit { b with store := memory } = .ok xs → Search.Comparable xs) →
          SearchedAlike rt r limit { b with store := memory } { b with store := database } := by
  refine ⟨?_, ?_, ?_⟩
  · intro t query threshold weight topK rated rated' hp hc
    exact Search.rankedAlike_of_perm hp hc t query threshold weight topK
  · intro rt r limit b s h hc
    exact rt.searchedAlike_of_reordered h hc
  · intro steps path rt r limit b hp hf hopen memory database hc
    exact rt.searchedAlike_of_reordered (Store.reordered_after path hp hf hopen r.riskType) hc

namespace Retriever

/-- A query without components is similar to nothing. -/
theorem rate_nil (c : Candidate) : rate [] c = ⟨c, 0.0⟩ := by
  unfold rate Search.cosine
  cases c.chunk.vector <;> rfl

theorem comparable_rated_nil {b : Base} (hb : b.provider = fun _ _ => .vector []) (r : Request)
    {xs : List (Search.Rated Float)} (h : rated r none b = .ok xs) : Search.Comparable xs := by
  obtain ⟨vector, hvector, h⟩ := bind_eq_ok.1 h
  obtain ⟨ks, hks, h⟩ := bind_eq_ok.1 h
  cases h
  have hnil : vector = [] := by
    simp only [embedQuery, Option.any_none, Bool.false_eq_true, ↓reduceIte, Action.runOn_bind, Action.runOn_ask, hb,
      Action.runOn_pure] at hvector
    cases hvector
    rfl
  intro x hx
  obtain ⟨k, -, rfl⟩ := List.mem_map.1 hx
  rw [hnil, rate_nil]
  exact (by decide +kernel : (0.0 : Float).isNaN = false)

def twoNotes : Memory where
  documents := [("a", Store.note), ("b", { Store.note with id := "b" })]
  chunks := [("a", [Store.noteChunk 0]), ("b", [{ Store.noteChunk 0 with id := "q", document := "b" }])]

/-- No similarity is too low here, so both notes are found, each in the place where its store lists it. -/
theorem search_reordered_notes :
    let rt : Retriever := { tuning := { Search.Tuning.standard with noiseFloor := 0.0, fallbackFloor := 0.0 } }
    let asked : Request := ⟨"t", none, none, none⟩
    let here : Base := { store := .memory twoNotes, provider := fun _ _ => .vector [] }
    let there : Store := .memory { twoNotes with chunks := twoNotes.chunks.reverse }
    let steps := Store.atOnce [.put Store.note, .replace "a" [Store.noteChunk 0]]
    let near : Search.Rated Float := ⟨⟨Store.noteChunk 0, Store.note.header⟩, 0.6⟩
    let nearer : Search.Rated Float := { near with similarity := 0.9 }
    Search.rank .standard "t" 0.7 5 0.7 [near, nearer] = Search.rank .standard "t" 0.7 5 0.7 [nearer, near] ∧
      SearchedAlike rt asked none here { here with store := there } ∧
      SearchedAlike rt asked none { here with store := Store.empty.after (steps.map fun k => (k.here, k.call)) }
        { here with
          store := (Store.table ⟨unfiledPath, true, {}⟩).after (steps.map fun k => (k.there, k.call)) } := by
  intro rt asked here there steps near nearer
  obtain ⟨hrank, hsearch, hkinds⟩ := search_reordered
  refine ⟨?_, ?_, ?_⟩
  · have hc : Search.Comparable [near, nearer] := by
      simp only [Search.Comparable, List.forall_mem_cons, List.not_mem_nil, false_implies, implies_true, and_true]
      decide +kernel
    have hd : Search.Distinct [near, nearer] := by
      simp only [Search.Distinct, List.pairwise_pair]
      decide +kernel
    exact (hrank _ _ _ _ _ _ _ (List.Perm.swap nearer near []) hc).same hd
  · apply hsearch
    · exact .listed (List.Perm.swap _ _ [])
    · exact fun xs => comparable_rated_nil rfl asked
  · apply hkinds
    · refine ⟨⟨Store.dated_note, ?_⟩, Store.promised_noteChunk 0, trivial⟩
      rintro old ⟨⟩
    · simp only [steps, Store.atOnce, List.forall_mem_map, List.forall_mem_cons, List.not_mem_nil, false_implies,
        implies_true, and_true, Call.Fits, Store.noteChunk]
      exact ⟨rfl, by decide, rfl⟩
    · simp [steps, Store.atOnce]
    · exact fun xs => comparable_rated_nil rfl asked

end Retriever

end Compendium
