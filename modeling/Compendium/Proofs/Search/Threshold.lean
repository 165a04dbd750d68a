import Mathlib.Data.List.Basic
import Mathlib.Algebra.Order.Field.Basic
import Mathlib.Tactic.NormNum
import Compendium.Proofs.Search.Policy

/-!
How many matches a search shows, and from which similarity on. Wanting fewer shows the first of them, a lower threshold
loses nothing that passed a higher one, and whether anything is shown is decided by the most similar candidate.
-/
namespace Compendium

open Number

namespace Search

/-- Whoever wants fewer matches gets the first of them. -/
theorem rank_take {K : Type} [Scalar K] (t : Tuning K) (query : String) (threshold weight : K) (rated : List (Rated K))
    {m n : Int} (hm : 0 ≤ m) (hmn : m ≤ n) :
    rank t query threshold m weight rated = (rank t query threshold n weight rated).take m.toNat := by
  rw [rank, rank, upTo_upTo hm hmn, List.map_take]

end Search

/-- A search for fewer matches finds the first of those that a search for more finds. -/
theorem Retriever.search_take (rt : Retriever) (r : Request) (limit : Option Numeral) (b : Base) {m n : Int}
    (hm : 1 ≤ m) (hmn : m ≤ n) :
    (Action.runOn (rt.search { r with topK := some m } limit) b).1 =
      ((Action.runOn (rt.search { r with topK := some n } limit) b).1).map (List.take m.toNat) := by
  have htop {k : Int} (hk : 1 ≤ k) : rt.topKOf { r with topK := some k } = k :=
    if_pos (Int.lt_of_lt_of_le Int.one_pos hk)
  have hembed (k : Int) : embedQuery { r with topK := some k } limit = embedQuery r limit := rfl
  rw [search_outcome, search_outcome, htop hm, htop (hm.trans hmn), hembed, hembed]
  split
  · rfl
  · cases (Action.runOn (embedQuery r limit) b).1 with
    | error e => rfl
    | ok vector =>
      dsimp only [bind, Except.bind]
      cases (Store.candidates r.riskType b.store).outcome with
      | error e => rfl
      | ok candidates => exact congrArg Except.ok (Search.rank_take _ _ _ _ _ (Int.le_trans Int.one_nonneg hm) hmn)

namespace Search

section Exact

variable {K : Type} [LinearOrder K] [Field K]

open Exact

section Threshold

variable [IsStrictOrderedRing K] {t : Tuning K} (ht : 0 ≤ t.relaxFactor)
include ht

theorem relaxed_mono {a b : K} (h : a ≤ b) (floor : K) :
    Scalar.larger (a * t.relaxFactor) floor ≤ Scalar.larger (b * t.relaxFactor) floor := by
  rw [larger_eq_max, larger_eq_max]
  exact max_le_max_right floor (mul_le_mul_of_nonneg_right h ht)

/-- A higher threshold is still higher when both are relaxed. -/
theorem inForce_mono {low high : K} (h : low ≤ high) (scored : List (Scored K)) :
    t.inForce low scored ≤ t.inForce high scored := by
  unfold Tuning.inForce
  split
  · exact relaxed_mono ht h _
  · exact h

/-- What passes a threshold passes a lower one. -/
theorem passing_mono {low high : K} (h : low ≤ high) (scored : List (Scored K)) :
    (t.passing high scored).Sublist (t.passing low scored) := by
  have hforce := inForce_mono ht h scored
  have hbar := relaxed_mono ht hforce t.keywordFloor
  apply List.monotone_filter_right
  intro s hs
  simp only [passes, le_eq, Bool.or_eq_true, Bool.and_eq_true, decide_eq_true_eq] at hs ⊢
  cases hs with
  | inl hs => exact .inl (hforce.trans hs)
  | inr hs => exact .inr ⟨hs.1, hbar.trans hs.2⟩

end Threshold

namespace Inquiry

variable (q : Inquiry K)

/-- Something is shown if something is accepted, and a match is wanted at all. -/
theorem rank_ne_nil_iff {topK : Int} (hk : 1 ≤ topK) (weight : K) :
    rank q.tuning q.query q.threshold topK weight q.rated ≠ [] ↔ ∃ r ∈ q.heard, q.Accepts r := by
  obtain ⟨k, rfl⟩ := Int.eq_ofNat_of_zero_le (Int.le_trans Int.one_nonneg hk)
  have hpos : k ≠ 0 := by omega
  rw [q.rank_eq, ne_eq, List.map_eq_nil_iff, List.take_eq_nil_iff, not_or]
  simp only [hpos, not_false_eq_true, true_and, List.filter_eq_nil_iff, decide_eq_true_eq, not_forall, not_not]
  constructor
  · rintro ⟨i, hi, h⟩
    exact ⟨_, q.mem_heard.2 ⟨i, hi, rfl⟩, h⟩
  · rintro ⟨r, hr, h⟩
    obtain ⟨i, hi, rfl⟩ := q.mem_heard.1 hr
    exact ⟨i, hi, h⟩

variable {q} {best : Rated K} (hbest : best ∈ q.heard) (hmost : ∀ r ∈ q.heard, r.similarity ≤ best.similarity)
include hbest hmost

/-- Whether anything is accepted, told by the most similar candidate and the strong ones. -/
theorem exists_accepts_iff :
    (∃ r ∈ q.heard, q.Accepts r) ↔
      q.effective ≤ best.similarity ∨ (∃ r ∈ q.heard, q.Strong r ∧ q.keywordBar ≤ r.similarity) ∨
        q.tuning.fallbackFloor ≤ best.similarity := by
  constructor
  · rintro ⟨r, hr, (h | h) | h⟩
    · exact .inl (h.trans (hmost r hr))
    · exact .inr (.inl ⟨r, hr, h⟩)
    · exact .inr (.inr (h.2.trans (hmost r hr)))
  · intro h
    by_cases hpass : ∃ r ∈ q.heard, q.Passes r
    · obtain ⟨r, hr, hpass⟩ := hpass
      exact ⟨r, hr, .inl hpass⟩
    · rcases h with h | ⟨r, hr, h⟩ | h
      · exact absurd ⟨best, hbest, .inl h⟩ hpass
      · exact absurd ⟨r, hr, .inr h⟩ hpass
      · exact ⟨best, hbest, .inr ⟨⟨fun r hr hr' => hpass ⟨r, hr, hr'⟩, best, hbest, hmost, h⟩, h⟩⟩

/-- Where no other floor lies below that of the fallback, this one decides, unless some candidate is strong. -/
theorem exists_accepts_iff_of_floors (hcross : q.tuning.fallbackFloor ≤ q.tuning.crossLingualFloor)
    (hkeyword : q.tuning.fallbackFloor ≤ q.tuning.keywordFloor) :
    (∃ r ∈ q.heard, q.Accepts r) ↔
      q.tuning.fallbackFloor ≤ best.similarity ∨ (∃ r ∈ q.heard, q.Strong r) ∧
        q.threshold ≤ best.similarity := by
  rw [exists_accepts_iff hbest hmost]
  by_cases hstrong : ∃ r ∈ q.heard, q.Strong r
  · have heff : q.effective = q.threshold := if_pos hstrong
    rw [heff]
    constructor
    · rintro (h | ⟨r, hr, -, h⟩ | h)
      · exact .inr ⟨hstrong, h⟩
      · exact .inl ((hkeyword.trans (le_max_right _ _)).trans (h.trans (hmost r hr)))
      · exact .inl h
    · rintro (h | h)
      · exact .inr (.inr h)
      · exact .inl h.2
  · have heff : q.tuning.fallbackFloor ≤ q.effective := by
      rw [effective, if_neg hstrong]
      exact hcross.trans (le_max_right _ _)
    constructor
    · rintro (h | ⟨r, hr, h, -⟩ | h)
      · exact .inl (heff.trans h)
      · exact absurd ⟨r, hr, h⟩ hstrong
      · exact .inl h
    · rintro (h | h)
      · exact .inr (.inr h)
      · exact absurd h.1 hstrong

end Inquiry

variable [IsStrictOrderedRing K]

/-- By the standard settings a search shows something exactly if the most similar of the candidates that are not noise
reaches 0.55, or the threshold while one of them is strong. -/
theorem shows_something_iff (query : String) (threshold weight : K) {topK : Int} (hk : 1 ≤ topK)
    (rated : List (Rated K)) :
    let heard := rated.filter fun r => (1 / 10 : K) ≤ r.similarity
    let Strong (r : Rated K) := (3 / 10 : K) < lexicalScore query r.candidate.header.category ∨
      (3 / 10 : K) < lexicalScore query r.candidate.header.title
    rank .standard query threshold topK weight rated ≠ [] ↔
      ∃ best ∈ heard, (∀ r ∈ heard, r.similarity ≤ best.similarity) ∧
        ((55 / 100 : K) ≤ best.similarity ∨ (∃ r ∈ heard, Strong r) ∧ threshold ≤ best.similarity) := by
  intro heard Strong
  let q : Inquiry K := ⟨.standard, query, threshold, rated⟩
  have hheard : q.heard = heard := by simp [q, Inquiry.heard, heard, Tuning.standard, ratio_eq]
  have hstrong (r : Rated K) : q.Strong r ↔ Strong r := by simp [q, Inquiry.Strong, Strong, Tuning.standard, ratio_eq]
  have hfloor : q.tuning.fallbackFloor = 55 / 100 := by simp [q, Tuning.standard, ratio_eq]
  have hcross : q.tuning.fallbackFloor ≤ q.tuning.crossLingualFloor := by
    simp only [q, Tuning.standard, ratio_eq]
    norm_num
  have hdecided {best : Rated K} (hbest : best ∈ q.heard)
      (hmost : ∀ r ∈ q.heard, r.similarity ≤ best.similarity) :=
    Inquiry.exists_accepts_iff_of_floors hbest hmost hcross le_rfl
  simp only [hfloor, hstrong, hheard] at hdecided
  refine (q.rank_ne_nil_iff hk weight).trans ?_
  rw [hheard]
  constructor
  · intro h
    have hsome : q.heard ≠ [] := by
      obtain ⟨r, hr, -⟩ := h
      exact List.ne_nil_of_mem (hheard ▸ hr)
    obtain ⟨best, hbest, hmost⟩ := q.exists_most hsome
    rw [hheard] at hbest hmost
    exact ⟨best, hbest, hmost, (hdecided hbest hmost).1 h⟩
  · rintro ⟨best, hbest, hmost, h⟩
    exact (hdecided hbest hmost).2 h

/-- Three candidates: one whose title has the words of the query, a less similar one without them, and noise. A
threshold that the first one passes shows it; a higher one shows nothing. -/
theorem shows_something_iff_rated :
    let rated (title : String) (similarity : ℚ) : Rated ℚ :=
      ⟨⟨default, ⟨"d", "Web", title⟩⟩, similarity⟩
    let all := [rated "Noise" (1 / 20), rated "Cross-site scripting" (3 / 10), rated "CSRF token" (1 / 2)]
    1 ≤ (5 : Int) ∧ rank .standard "csrf token" (2 / 5) 5 (7 / 10) all ≠ [] ∧
      rank .standard "csrf token" (3 / 5) 5 (7 / 10) all = [] := by
  intro rated all
  have hdecided (threshold : ℚ) :=
    shows_something_iff "csrf token" threshold (7 / 10) (by decide : 1 ≤ (5 : Int)) all
  have hheard : (all.filter fun r => (1 / 10 : ℚ) ≤ r.similarity) =
      [rated "Cross-site scripting" (3 / 10), rated "CSRF token" (1 / 2)] := by
    norm_num [all, rated, List.filter_cons]
  have hstrong : (3 / 10 : ℚ) < lexicalScore "csrf token" "CSRF token" := by decide +kernel
  simp only [hheard] at hdecided
  refine ⟨by decide, (hdecided _).2 ?_, ?_⟩
  · refine ⟨rated "CSRF token" (1 / 2), by simp, ?_,
      .inr ⟨⟨rated "CSRF token" (1 / 2), by simp, .inr hstrong⟩, ?_⟩⟩
    · norm_num [rated]
    · norm_num [rated]
  · by_contra hshown
    obtain ⟨best, hbest, -, h⟩ := (hdecided _).1 hshown
    have hlow : best.similarity ≤ 1 / 2 := by
      rcases List.mem_pair.1 hbest with rfl | rfl <;> norm_num [rated]
    rcases h with h | ⟨-, h⟩
    · exact absurd (h.trans hlow) (by norm_num)
    · exact absurd (h.trans hlow) (by norm_num)

/-- Wanting fewer matches gives the first of those that wanting more gives, in any arithmetic and in the running search;
in exact arithmetic a lower threshold accepts all that a higher one accepts without falling back. -/
theorem search_monotone :
    (∀ (K : Type) [Scalar K] (t : Tuning K) (query : String) (threshold weight : K) (rated : List (Rated K))
      (m n : Int), 1 ≤ m → m ≤ n →
        rank t query threshold m weight rated = (rank t query threshold n weight rated).take m.toNat) ∧
    (∀ (rt : Retriever) (r : Request) (limit : Option Numeral) (b : Base) (m n : Int), 1 ≤ m → m ≤ n →
      (Action.runOn (rt.search { r with topK := some m } limit) b).1 =
        ((Action.runOn (rt.search { r with topK := some n } limit) b).1).map (List.take m.toNat)) ∧
    ∀ (K : Type) [LinearOrder K] [Field K] [IsStrictOrderedRing K] (t : Tuning K) (query : String)
      (rated : List (Rated K)) (low high : K), 0 ≤ t.relaxFactor → low ≤ high →
        let scored := scoredOf t query rated
        (judge t high scored).fallback.taken = false →
          (judge t high scored).accepted.Sublist (judge t low scored).accepted := by
  refine ⟨?_, ?_, ?_⟩
  · intro K _ t query threshold weight rated m n hm hmn
    exact rank_take t query threshold weight rated (Int.le_trans Int.one_nonneg hm) hmn
  · intro rt r limit b m n hm hmn
    exact rt.search_take r limit b hm hmn
  · intro K _ _ _ t query rated low high ht h scored hback
    rw [(judge_judged t high scored).accepted_eq, hback, if_neg Bool.false_ne_true]
    exact (passing_mono ht h scored).trans (judge_judged t low scored).passing_sublist

/-- Two candidates of which one is wanted, and one candidate at two thresholds. -/
theorem search_monotone_rated :
    let near : Rated ℚ := ⟨default, 8 / 10⟩
    let nearer : Rated ℚ := ⟨default, 9 / 10⟩
    let asked (wanted : Int) : Request := ⟨"t", none, some wanted, none⟩
    let judged (threshold : ℚ) := judge .standard threshold (scoredOf .standard "t" [near])
    rank .standard "t" (7 / 10) 1 (7 / 10) [near, nearer] =
        (rank .standard "t" (7 / 10) 2 (7 / 10) [near, nearer]).take 1 ∧
      (Action.runOn (Retriever.search {} (asked 1)) {}).1 =
        ((Action.runOn (Retriever.search {} (asked 2)) {}).1).map (List.take 1) ∧
      (judged (7 / 10)).fallback.taken = false ∧ (judged (7 / 10)).accepted.Sublist (judged (1 / 2)).accepted := by
  intro near nearer asked judged
  obtain ⟨hrank, hsearch, hthreshold⟩ := search_monotone
  have hscored : scoredOf .standard "t" [near] = [score .standard "t" near] := by
    simp [scoredOf, bySimilarity, near, Tuning.standard, ratio_eq]
    norm_num
  have hback : (judged (7 / 10)).fallback.taken = false := by
    simp only [judged, hscored]
    decide +kernel
  refine ⟨?_, ?_, hback, ?_⟩
  · exact hrank ℚ .standard "t" (7 / 10) (7 / 10) [near, nearer] 1 2 le_rfl (by decide)
  · exact hsearch {} (asked 1) none {} 1 2 le_rfl (by decide)
  · exact hthreshold ℚ .standard "t" [near] (1 / 2) (7 / 10) (by norm_num [Tuning.standard, ratio_eq])
      (by norm_num) hback

end Exact

end Search

end Compendium
