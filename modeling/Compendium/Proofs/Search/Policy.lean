import Mathlib.Data.Finset.Card
import Mathlib.Data.Fintype.Basic
import Mathlib.Data.List.FinRange
import Compendium.Proofs.Number.Exact
import Compendium.Proofs.Search.Running

/-!
What a search accepts. The judge sorts, filters and cuts; the policy chooses among all candidates at once.
In exact arithmetic the two agree.
-/
namespace Compendium

namespace Search

open Number

/-- Sorting puts smaller items first and leaves equals in the order they had. -/
theorem pairwise_mergeSort_stable {α : Type} {le : α → α → Bool} {R : α → α → Prop}
    (trans : ∀ a b c, le a b = true → le b c = true → le a c = true) (total : ∀ a b, (le a b || le b a) = true)
    {l : List α} (hl : l.Pairwise R) :
    (l.mergeSort le).Pairwise fun a b => le a b = true ∧ (le b a = true → R a b) := by
  rw [← List.mergeSort_zipIdx, List.pairwise_map]
  have hperm := List.mergeSort_perm l.zipIdx (List.zipIdxLE le)
  have hsorted := List.pairwise_mergeSort (List.zipIdxLE_trans trans) (List.zipIdxLE_total total) l.zipIdx
  have hdistinct : (l.zipIdx.mergeSort (List.zipIdxLE le)).Pairwise fun a b => a.2 ≠ b.2 := by
    refine List.pairwise_map.1 ((hperm.map Prod.snd).nodup_iff.2 ?_)
    rw [List.zipIdx_map_snd]
    exact List.nodup_range'
  refine (hsorted.and hdistinct).imp_of_mem fun {a b} ha hb h => ?_
  obtain ⟨hle, hne⟩ := h
  have ha := List.mem_zipIdx_iff_getElem?.1 (hperm.mem_iff.1 ha)
  have hb := List.mem_zipIdx_iff_getElem?.1 (hperm.mem_iff.1 hb)
  unfold List.zipIdxLE at hle
  have hab : le a.1 b.1 = true := by
    by_contra hab
    simp [hab] at hle
  refine ⟨hab, fun hba => ?_⟩
  have hlt : a.2 < b.2 := by
    simp only [hab, hba, ↓reduceIte, decide_eq_true_eq] at hle
    omega
  obtain ⟨hai, hav⟩ := List.getElem?_eq_some_iff.1 ha
  obtain ⟨hbi, hbv⟩ := List.getElem?_eq_some_iff.1 hb
  have := List.pairwise_iff_getElem.1 hl a.2 b.2 hai hbi hlt
  rwa [hav, hbv] at this

/-- Places that are sorted by what stands there, the greatest first, keep their order among equals. -/
theorem pairwise_greatest_first {K : Type} [LinearOrder K] {n : Nat} (key : Fin n → K) {l : List (Fin n)}
    (hl : l.Pairwise (· < ·)) :
    (l.mergeSort fun i j => decide (key j ≤ key i)).Pairwise
      fun i j => key j < key i ∨ key i = key j ∧ i < j := by
  refine (pairwise_mergeSort_stable (fun i j l hij hjl => ?_) (fun i j => ?_) hl).imp fun {i j} h => ?_
  · simp only [decide_eq_true_eq] at *
    exact hjl.trans hij
  · simpa using le_total _ _
  · simp only [decide_eq_true_eq] at h
    exact h.1.lt_or_eq.imp id fun he => ⟨he.symm, h.2 he.ge⟩

structure Inquiry (K : Type) where
  tuning : Tuning K
  query : String
  threshold : K
  rated : List (Rated K)

section
variable {K : Type} [LinearOrder K]

namespace Inquiry

variable (q : Inquiry K)

/-! The sorted candidates, by their places in the list of candidates. -/

def heard : List (Rated K) := q.rated.filter fun r => q.tuning.noiseFloor ≤ r.similarity

/-- The more similar candidate comes before the other; of equals, the one that was listed first. -/
def Before (i j : Fin q.rated.length) : Prop :=
  q.rated[j].similarity < q.rated[i].similarity ∨ q.rated[i].similarity = q.rated[j].similarity ∧ i < j

/-- The places of the candidates that are not noise, most similar first. -/
def order : List (Fin q.rated.length) :=
  ((List.finRange q.rated.length).filter fun i => q.tuning.noiseFloor ≤ q.rated[i].similarity).mergeSort
    fun i j => q.rated[j].similarity ≤ q.rated[i].similarity

theorem mem_order {i : Fin q.rated.length} : i ∈ q.order ↔ q.tuning.noiseFloor ≤ q.rated[i].similarity := by
  simp [order, List.mem_mergeSort]

theorem mem_heard {r : Rated K} : r ∈ q.heard ↔ ∃ i ∈ q.order, q.rated[i] = r := by
  simp only [heard, List.mem_filter, decide_eq_true_eq, mem_order]
  constructor
  · rintro ⟨hr, hnoise⟩
    obtain ⟨i, hi, rfl⟩ := List.getElem_of_mem hr
    exact ⟨⟨i, hi⟩, hnoise, rfl⟩
  · rintro ⟨i, hnoise, rfl⟩
    exact ⟨List.getElem_mem _, hnoise⟩

/-- The places are in the declared order. -/
theorem pairwise_order : q.order.Pairwise q.Before :=
  pairwise_greatest_first (fun i => q.rated[i].similarity)
    ((List.pairwise_lt_finRange q.rated.length).filter fun i => q.tuning.noiseFloor ≤ q.rated[i].similarity)

/-- The first of the sorted candidates is the most similar one. -/
theorem first_most {first : Fin q.rated.length} {rest : List (Fin q.rated.length)} (h : q.order = first :: rest) :
    q.rated[first] ∈ q.heard ∧ ∀ r ∈ q.heard, r.similarity ≤ q.rated[first].similarity := by
  have hbefore := (List.pairwise_cons.1 (h ▸ q.pairwise_order)).1
  constructor
  · exact q.mem_heard.2 ⟨first, h ▸ List.mem_cons_self, rfl⟩
  · intro r hr
    obtain ⟨i, hi, rfl⟩ := q.mem_heard.1 hr
    rw [h] at hi
    cases List.mem_cons.1 hi with
    | inl hi =>
      subst hi
      exact le_rfl
    | inr hi => exact (hbefore i hi).elim le_of_lt fun he => he.1.ge

theorem exists_most (h : q.heard ≠ []) :
    ∃ best ∈ q.heard, ∀ r ∈ q.heard, r.similarity ≤ best.similarity := by
  obtain ⟨r, hr⟩ := List.exists_mem_of_ne_nil _ h
  obtain ⟨i, hi, -⟩ := q.mem_heard.1 hr
  cases horder : q.order with
  | nil =>
    rw [horder] at hi
    cases hi
  | cons first rest => exact ⟨q.rated[first], q.first_most horder⟩

theorem nodup_of_before {places : List (Fin q.rated.length)} (h : places.Pairwise q.Before) : places.Nodup :=
  h.imp fun {i j} h he => by
    subst he
    rcases h with h | ⟨-, h⟩ <;> exact lt_irrefl _ h

end Inquiry

/-! The policy. -/

variable [Field K]

open Exact

namespace Inquiry

variable (q : Inquiry K)

/-- The query shares many words with the category or the title. -/
def Strong (r : Rated K) : Prop :=
  q.tuning.strongKeyword < lexicalScore q.query r.candidate.header.category ∨
    q.tuning.strongKeyword < lexicalScore q.query r.candidate.header.title

instance : DecidablePred q.Strong := fun _ => inferInstanceAs (Decidable (_ ∨ _))

/-- The threshold; it is relaxed unless some candidate is strong. -/
def effective : K :=
  if ∃ r ∈ q.heard, q.Strong r then q.threshold
  else max (q.threshold * q.tuning.relaxFactor) q.tuning.crossLingualFloor

def keywordBar : K := max (q.effective * q.tuning.relaxFactor) q.tuning.keywordFloor

def Passes (r : Rated K) : Prop := q.effective ≤ r.similarity ∨ q.Strong r ∧ q.keywordBar ≤ r.similarity

instance : DecidablePred q.Passes := fun _ => inferInstanceAs (Decidable (_ ∨ _))

/-- Nothing passes, but the most similar candidate reaches the floor. -/
def FallsBack : Prop :=
  (∀ r ∈ q.heard, ¬q.Passes r) ∧
    ∃ best ∈ q.heard, (∀ r ∈ q.heard, r.similarity ≤ best.similarity) ∧
      q.tuning.fallbackFloor ≤ best.similarity

instance : Decidable q.FallsBack := inferInstanceAs (Decidable (_ ∧ _))

def Accepts (r : Rated K) : Prop := q.Passes r ∨ q.FallsBack ∧ q.tuning.fallbackFloor ≤ r.similarity

instance : DecidablePred q.Accepts := fun _ => inferInstanceAs (Decidable (_ ∨ _))

def accepted : Finset (Fin q.rated.length) :=
  Finset.univ.filter fun i => q.tuning.noiseFloor ≤ q.rated[i].similarity ∧ q.Accepts q.rated[i]

/-- The share of the query's words in the text, the category or the title, whichever is greatest. -/
def lexical (r : Rated K) : K :=
  max (max (lexicalScore q.query r.candidate.chunk.text) (lexicalScore q.query r.candidate.header.category))
    (lexicalScore q.query r.candidate.header.title)

def shown (weight : K) (r : Rated K) : Match K where
  chunk := r.candidate.chunk
  header := r.candidate.header
  similarity := r.similarity
  score := weight * r.similarity + (1 - weight) * min (q.lexical r) 1
  expanded := false

/-- The first `k` of the accepted candidates, or all of them if they are fewer. -/
structure Chosen (k : Nat) (places : List (Fin q.rated.length)) : Prop where
  accepted : ∀ i ∈ places, i ∈ q.accepted
  distinct : places.Nodup
  ordered : places.Pairwise q.Before
  rest : ∀ i ∈ places, ∀ j ∈ q.accepted, j ∉ places → q.Before i j
  count : places.length = min k q.accepted.card

/-! The judge. -/

/-- The running search scores the candidates in the declared order. -/
theorem scoredOf_eq :
    scoredOf q.tuning q.query q.rated = q.order.map fun i => score q.tuning q.query q.rated[i] := by
  have hheard : (q.rated.filter fun r => !Scalar.lt r.similarity q.tuning.noiseFloor) =
      ((List.finRange q.rated.length).filter fun i => q.tuning.noiseFloor ≤ q.rated[i].similarity).map
        q.rated.get := by
    conv_lhs => rw [← List.map_get_finRange q.rated, List.filter_map]
    congr 2
    funext i
    simp [← decide_not]
  rw [scoredOf, hheard, List.map_map]
  refine (List.map_mergeSort fun i _ j _ => ?_).symm
  simp [score, ← decide_not]

theorem strong_score (r : Rated K) : (score q.tuning q.query r).strong = decide (q.Strong r) := by
  rw [Bool.eq_iff_iff, decide_eq_true_iff]
  simp [score, Strong]

/-- The running test is the declared one. -/
theorem passes_score (r : Rated K) :
    passes q.effective q.keywordBar (score q.tuning q.query r) = decide (q.Passes r) := by
  rw [Bool.eq_iff_iff, decide_eq_true_iff, passes, strong_score]
  simp [score, Passes]

/-- The threshold in force is the declared one. -/
theorem inForce_eq : q.tuning.inForce q.threshold (scoredOf q.tuning q.query q.rated) = q.effective := by
  have hnone : noneStrong (scoredOf q.tuning q.query q.rated) = !decide (∃ r ∈ q.heard, q.Strong r) := by
    rw [noneStrong, Bool.not_inj_iff, Bool.eq_iff_iff, decide_eq_true_iff, scoredOf_eq]
    simp [strong_score, mem_heard]
  rw [Tuning.inForce, hnone, effective, larger_eq_max]
  by_cases h : ∃ r ∈ q.heard, q.Strong r <;> simp [h]

/-- What a property keeps of the scored candidates is what it keeps of their places. -/
theorem filter_scoredOf (p : Scored K → Bool) (P : Rated K → Prop) [DecidablePred P]
    (hp : ∀ i ∈ q.order, p (score q.tuning q.query q.rated[i]) = true ↔ P q.rated[i]) :
    (scoredOf q.tuning q.query q.rated).filter p =
      (q.order.filter fun i => P q.rated[i]).map fun i => score q.tuning q.query q.rated[i] := by
  rw [scoredOf_eq, List.filter_map]
  congr 1
  exact List.filter_congr fun i hi => by rw [Bool.eq_iff_iff, Function.comp_apply, hp i hi, decide_eq_true_iff]

theorem passing_eq :
    q.tuning.passing q.threshold (scoredOf q.tuning q.query q.rated) =
      (q.order.filter fun i => q.Passes q.rated[i]).map fun i => score q.tuning q.query q.rated[i] := by
  rw [Tuning.passing, inForce_eq]
  apply filter_scoredOf
  intro i _
  rw [larger_eq_max, ← keywordBar, passes_score, decide_eq_true_iff]

/-- A search falls back when the policy does. -/
theorem taken_iff :
    (judge q.tuning q.threshold (scoredOf q.tuning q.query q.rated)).fallback.taken = true ↔ q.FallsBack := by
  have hnone : (q.tuning.passing q.threshold (scoredOf q.tuning q.query q.rated)).isEmpty = true ↔
      ∀ r ∈ q.heard, ¬q.Passes r := by
    rw [passing_eq, List.isEmpty_iff, List.map_eq_nil_iff, List.filter_eq_nil_iff]
    simp [mem_heard]
  rw [(judge_judged _ _ _).taken_eq, Bool.and_eq_true, hnone, scoredOf_eq, FallsBack]
  apply and_congr_right
  intro _
  cases horder : q.order with
  | nil =>
    have hheard : ∀ r, r ∉ q.heard := by simp [mem_heard, horder]
    simp [hheard]
  | cons first rest =>
    obtain ⟨hfirst, hmost⟩ := q.first_most horder
    have hhead : ((q.order.map fun i => score q.tuning q.query q.rated[i]).head?.any fun best =>
        !Scalar.lt best.similarity q.tuning.fallbackFloor) = true ↔
          q.tuning.fallbackFloor ≤ q.rated[first].similarity := by
      simp [horder, score]
    rw [← horder, hhead]
    constructor
    · intro h
      exact ⟨_, hfirst, hmost, h⟩
    · rintro ⟨best, hbest, -, h⟩
      exact h.trans (hmost best hbest)

/-- The judge keeps of the sorted candidates those that the policy accepts. -/
theorem judge_accepted :
    (judge q.tuning q.threshold (scoredOf q.tuning q.query q.rated)).accepted =
      (q.order.filter fun i => q.Accepts q.rated[i]).map fun i => score q.tuning q.query q.rated[i] := by
  rw [(judge_judged _ _ _).accepted_eq]
  by_cases hback : q.FallsBack
  · rw [if_pos (q.taken_iff.2 hback)]
    apply filter_scoredOf
    intro i hi
    have hnot : ¬q.Passes q.rated[i] := hback.1 _ (q.mem_heard.2 ⟨i, hi, rfl⟩)
    have haccepts : q.Accepts q.rated[i] ↔ q.tuning.fallbackFloor ≤ q.rated[i].similarity := by
      rw [Accepts, or_iff_right hnot, and_iff_right hback]
    rw [haccepts]
    simp [score]
  · rw [if_neg (mt q.taken_iff.1 hback), passing_eq]
    simp only [Accepts, hback, false_and, or_false]

theorem toMatch_score (weight : K) (r : Rated K) : toMatch weight (score q.tuning q.query r) = q.shown weight r := by
  simp only [toMatch, score, shown, lexical, larger_eq_max, smaller_eq_min, ofNat_eq, Nat.cast_one]

/-- The first `k` accepted places in the order of the ranking are chosen. -/
theorem chosen_take (k : Nat) : q.Chosen k ((q.order.filter fun i => q.Accepts q.rated[i]).take k) := by
  have hall := q.pairwise_order.filter fun i => q.Accepts q.rated[i]
  have hmem (i : Fin q.rated.length) : i ∈ (q.order.filter fun i => q.Accepts q.rated[i]) ↔ i ∈ q.accepted := by
    simp [accepted, mem_order]
  generalize q.order.filter (fun i => q.Accepts q.rated[i]) = all at hall hmem
  have hcard : all.length = q.accepted.card := by
    rw [← List.toFinset_card_of_nodup (q.nodup_of_before hall)]
    exact congrArg Finset.card (Finset.ext fun i => by rw [List.mem_toFinset, hmem])
  refine ⟨fun i hi => (hmem i).1 (List.mem_of_mem_take hi), ?_, hall.take, fun i hi j hj hn => ?_, ?_⟩
  · exact q.nodup_of_before hall.take
  · rw [← List.take_append_drop k all] at hall hmem
    have hdrop := (List.mem_append.1 ((hmem j).2 hj)).resolve_left hn
    exact (List.pairwise_append.1 hall).2.2 i hi j hdrop
  · rw [List.length_take, hcard]

/-- What ranking shows are the first accepted candidates. -/
theorem rank_eq (k : Nat) (weight : K) :
    rank q.tuning q.query q.threshold k weight q.rated =
      ((q.order.filter fun i => q.Accepts q.rated[i]).take k).map fun i => q.shown weight q.rated[i] := by
  rw [rank, judge_accepted, upTo, if_pos (Int.natCast_nonneg k), Int.toNat_natCast, ← List.map_take, List.map_map]
  exact List.map_congr_left fun i _ => q.toMatch_score weight _

end Inquiry

/-- A search ranks the candidates of the store by its settings. In exact arithmetic the ranking shows, most
similar first, the first of all candidates that the policy accepts, as many as are wanted. -/
theorem search_policy :
    (∀ (rt : Retriever) (r : Request) (limit : Option Numeral) (b : Base),
      (Action.runOn (rt.search r limit) b).1 =
        if Text.isBlankText r.query then .error .emptyQuery
        else do
          let vector ← (Action.runOn (Retriever.embedQuery r limit) b).1
          let candidates ← (Store.candidates r.riskType b.store).outcome
          return rank rt.tuning r.query (rt.thresholdOf r).toFloat (rt.topKOf r) rt.weight
            (candidates.map (Retriever.rate vector))) ∧
    ∀ (K : Type) [LinearOrder K] [Field K] (q : Inquiry K) (k : Nat) (weight : K),
      ∃ places, rank q.tuning q.query q.threshold k weight q.rated =
          places.map (fun i => q.shown weight q.rated[i]) ∧ q.Chosen k places :=
  ⟨Retriever.search_outcome, fun _ _ _ q k weight => ⟨_, q.rank_eq k weight, q.chosen_take k⟩⟩

end

end Search

end Compendium
