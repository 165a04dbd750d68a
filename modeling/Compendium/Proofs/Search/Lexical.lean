import Mathlib.Algebra.BigOperators.Group.List.Basic
import Mathlib.Algebra.BigOperators.Group.Finset.Basic
import Mathlib.Algebra.BigOperators.Ring.Finset
import Mathlib.Algebra.BigOperators.Field
import Mathlib.Algebra.Order.BigOperators.Group.Finset
import Mathlib.Algebra.Order.Field.Basic
import Mathlib.Order.Lattice.Nat
import Mathlib.Tactic.NormNum
import Compendium.Proofs.Number.Exact
import Compendium.Search.Acceptance

/-!
The word overlap in closed form. What the loop over the query's terms adds up is, term by term, the product of how
often it occurs on either side; everything else about the overlap follows from this.
-/
namespace Compendium.Search

open Compendium.Number

/-- A sum over terms, collected by equal terms. -/
theorem sum_map_terms {M : Type} [AddCommMonoid M] (q : List (List Char)) (f : List Char → M) :
    (q.map f).sum = ∑ w ∈ q.toFinset, q.count w • f w := by
  rw [Finset.sum_list_map_count]
  apply Finset.sum_congr rfl
  intro w _
  simp only [List.count_eq_countP, Bool.beq_eq_decide_eq]

/-- The pairs of a term of one text and an equal term of another, counted by terms. -/
def shared (q t : List (List Char)) : Nat := ∑ w ∈ q.toFinset ∪ t.toFinset, q.count w * t.count w

theorem shared_comm (q t : List (List Char)) : shared q t = shared t q := by
  rw [shared, shared, Finset.union_comm]
  apply Finset.sum_congr rfl
  intro w _
  exact Nat.mul_comm _ _

theorem shared_perm {q q' t t' : List (List Char)} (hq : q'.Perm q) (ht : t'.Perm t) : shared q' t' = shared q t := by
  rw [shared, shared, List.toFinset_eq_of_perm _ _ hq, List.toFinset_eq_of_perm _ _ ht]
  apply Finset.sum_congr rfl
  intro w _
  rw [hq.count_eq, ht.count_eq]

/-- Only the terms of the first text count. -/
theorem shared_eq (q t : List (List Char)) : shared q t = ∑ w ∈ q.toFinset, q.count w * t.count w := by
  symm
  apply Finset.sum_subset Finset.subset_union_left
  intro w _ hw
  rw [List.count_eq_zero_of_not_mem (mt List.mem_toFinset.2 hw), Nat.zero_mul]

theorem shared_eq_zero_iff {q t : List (List Char)} : shared q t = 0 ↔ ∀ w ∈ q, w ∉ t := by
  rw [shared_eq, Finset.sum_eq_zero_iff]
  constructor
  · intro h w hq ht
    have hzero := h w (List.mem_toFinset.2 hq)
    exact (Nat.mul_pos (List.count_pos_iff.2 hq) (List.count_pos_iff.2 ht)).ne' hzero
  · intro h w hw
    rw [List.count_eq_zero_of_not_mem (h w (List.mem_toFinset.1 hw)), Nat.mul_zero]

theorem count_terms (t : List (List Char)) : ∑ w ∈ t.toFinset, t.count w = t.length := by
  simpa using (sum_map_terms t fun _ => (1 : Nat)).symm

/-- If no term occurs in the first text more than so often, each term of the second text has so many equals at most. -/
theorem shared_le {q t : List (List Char)} {m : Nat} (hm : ∀ w, q.count w ≤ m) : shared q t ≤ m * t.length := by
  calc shared q t
      = ∑ w ∈ t.toFinset, t.count w * q.count w := by rw [shared_comm, shared_eq]
    _ ≤ ∑ w ∈ t.toFinset, t.count w * m := Finset.sum_le_sum fun w _ => Nat.mul_le_mul_left _ (hm w)
    _ = m * t.length := by rw [← Finset.sum_mul, count_terms, Nat.mul_comm]

def most (q : List (List Char)) : Nat := q.toFinset.sup q.count

theorem count_le_most (q : List (List Char)) (w : List Char) : q.count w ≤ most q := by
  by_cases hw : w ∈ q
  · exact Finset.le_sup (f := q.count) (List.mem_toFinset.2 hw)
  · rw [List.count_eq_zero_of_not_mem hw]
    exact Nat.zero_le _

theorem most_le_length (q : List (List Char)) : most q ≤ q.length := Finset.sup_le fun _ _ => List.count_le_length

/-- In a text without repeated terms the most frequent term occurs once. -/
theorem most_le_one {q : List (List Char)} (hq : q.Nodup) : most q ≤ 1 :=
  Finset.sup_le fun w _ => List.nodup_iff_count_le_one.1 hq w

section Exact

variable {K : Type} [LinearOrder K] [Field K]

open Exact

/-- The overlap in closed form. -/
theorem overlap_eq {q t : List (List Char)} (hq : q ≠ []) (ht : t ≠ []) :
    (overlap q t : K) = shared q t / (q.length * t.length) := by
  have hsum : (q.map fun w => (Scalar.ratio (t.count w) t.length : K)).sum = shared q t / t.length := by
    calc (q.map fun w => (Scalar.ratio (t.count w) t.length : K)).sum
        = ∑ w ∈ q.toFinset, q.count w • ((t.count w : K) / t.length) := sum_map_terms q _
      _ = ∑ w ∈ q.toFinset, (q.count w * t.count w : K) / t.length := by
        apply Finset.sum_congr rfl
        intro w _
        rw [nsmul_eq_mul, mul_div_assoc]
      _ = shared q t / t.length := by
        rw [← Finset.sum_div, shared_eq]
        push_cast
        rfl
  rw [overlap, List.isEmpty_eq_false_iff.2 hq, List.isEmpty_eq_false_iff.2 ht, if_neg (by decide), sum_eq,
    hsum, ofNat_eq, div_div, mul_comm]

/-- In exact arithmetic the overlap is the same both ways. -/
theorem overlap_comm {q t : List (List Char)} (hq : q ≠ []) (ht : t ≠ []) : (overlap q t : K) = overlap t q := by
  rw [overlap_eq hq ht, overlap_eq ht hq, shared_comm, mul_comm]

/-- The order of the terms does not count. -/
theorem overlap_perm {q t q' t' : List (List Char)} (hq : q ≠ []) (ht : t ≠ []) (hq' : q'.Perm q)
    (ht' : t'.Perm t) : (overlap q' t' : K) = overlap q t := by
  have hne : q' ≠ [] := fun h => hq (List.nil_perm.1 (h ▸ hq'))
  have hne' : t' ≠ [] := fun h => ht (List.nil_perm.1 (h ▸ ht'))
  rw [overlap_eq hne hne', overlap_eq hq ht, shared_perm hq' ht', hq'.length_eq, ht'.length_eq]

variable [IsStrictOrderedRing K] {q t : List (List Char)}

theorem length_pos (ht : t ≠ []) : (0 : K) < t.length := Nat.cast_pos.2 (List.length_pos_iff.2 ht)

/-- The overlap is bounded by the share of the most frequent term among the terms of the query. -/
theorem overlap_le (hq : q ≠ []) (ht : t ≠ []) : (overlap q t : K) ≤ most q / q.length := by
  have hshared : (shared q t : K) ≤ most q * t.length := by exact_mod_cast shared_le (count_le_most q)
  calc (overlap q t : K)
      = shared q t / (q.length * t.length) := overlap_eq hq ht
    _ ≤ most q * t.length / (q.length * t.length) :=
      div_le_div_of_nonneg_right hshared (mul_pos (length_pos hq) (length_pos ht)).le
    _ = most q / q.length := mul_div_mul_right _ _ (length_pos ht).ne'

theorem overlap_le_one (hq : q ≠ []) (ht : t ≠ []) : (overlap q t : K) ≤ 1 := by
  have hmost : (most q : K) ≤ q.length := by exact_mod_cast most_le_length q
  exact (overlap_le hq ht).trans ((div_le_one (length_pos hq)).2 hmost)

/-- The overlap is zero exactly if no term is shared. -/
theorem overlap_eq_zero_iff (hq : q ≠ []) (ht : t ≠ []) : (overlap q t : K) = 0 ↔ ∀ w ∈ q, w ∉ t := by
  rw [overlap_eq hq ht, div_eq_zero_iff, or_iff_left (mul_pos (length_pos hq) (length_pos ht)).ne', Nat.cast_eq_zero,
    shared_eq_zero_iff]

/-- Four terms of a query that are not alike leave each of them too small a share for a strong candidate. -/
theorem not_strong {query : String} (hlength : 4 ≤ (terms query.toList).length) (hq : (terms query.toList).Nodup)
    (r : Rated K) : (score .standard query r).strong = false := by
  have hshare (text : String) : (lexicalScore query text : K) ≤ 3 / 10 := by
    rw [lexicalScore]
    by_cases ht : terms text.toList = []
    · rw [ht, overlap, List.isEmpty_nil, Bool.or_true, if_pos rfl, ofNat_eq, Nat.cast_zero]
      positivity
    · have hne : terms query.toList ≠ [] := List.ne_nil_of_length_pos (by omega)
      have hmost : (most (terms query.toList) : K) ≤ 1 := by exact_mod_cast most_le_one hq
      have hfour : (4 : K) ≤ (terms query.toList).length := by exact_mod_cast hlength
      calc (overlap (terms query.toList) (terms text.toList) : K)
          ≤ most (terms query.toList) / (terms query.toList).length := overlap_le hne ht
        _ ≤ 1 / 4 := div_le_div₀ zero_le_one hmost (by positivity) hfour
        _ ≤ 3 / 10 := by norm_num
  have hcategory := hshare r.candidate.header.category
  have htitle := hshare r.candidate.header.title
  simp [score, Tuning.standard, ratio_eq, hcategory, htitle]

/-- The word overlap of texts that have words, in exact arithmetic: the pairs of equal words, divided by all pairs. By
the standard settings four different words or more are never a strong match. -/
theorem lexicalScore_closed_form :
    (∀ (K : Type) [LinearOrder K] [Field K] [IsStrictOrderedRing K] (query text : String),
      let q := terms query.toList
      let t := terms text.toList
      q ≠ [] → t ≠ [] →
        (lexicalScore query text : K) = shared q t / (q.length * t.length) ∧
        (lexicalScore query text : K) = lexicalScore text query ∧
        (∀ query' text' : String, (terms query'.toList).Perm q → (terms text'.toList).Perm t →
          (lexicalScore query' text' : K) = lexicalScore query text) ∧
        (0 ≤ (lexicalScore query text : K) ∧ (lexicalScore query text : K) ≤ 1) ∧
        ((lexicalScore query text : K) = 0 ↔ ∀ w ∈ q, w ∉ t) ∧
        (lexicalScore query text : K) ≤ most q / q.length) ∧
    ∀ (K : Type) [LinearOrder K] [Field K] [IsStrictOrderedRing K] (query : String),
      4 ≤ (terms query.toList).length → (terms query.toList).Nodup →
        ∀ r : Rated K, (score .standard query r).strong = false := by
  refine ⟨?_, ?_⟩
  · intro K _ _ _ query text q t hq ht
    refine ⟨overlap_eq hq ht, overlap_comm hq ht, ?_, ⟨?_, overlap_le_one hq ht⟩, overlap_eq_zero_iff hq ht,
      overlap_le hq ht⟩
    · intro query' text' hq' ht'
      exact overlap_perm hq ht hq' ht'
    · rw [lexicalScore, overlap_eq hq ht]
      positivity
  · intro K _ _ _ query hlength hq r
    exact not_strong hlength hq r

/-- One of two words occurs twice among four; and four different words that make no candidate strong. -/
theorem lexicalScore_closed_form_words :
    terms "cross site".toList ≠ [] ∧ terms "Site map, site plan".toList ≠ [] ∧
      (lexicalScore "cross site" "Site map, site plan" : ℚ) = 1 / 4 ∧
      4 ≤ (terms "how to stop injection".toList).length ∧ (terms "how to stop injection".toList).Nodup ∧
      ∀ r : Rated ℚ, (score .standard "how to stop injection" r).strong = false := by
  have hq : terms "cross site".toList ≠ [] := by decide +kernel
  have ht : terms "Site map, site plan".toList ≠ [] := by decide +kernel
  have hlength : 4 ≤ (terms "how to stop injection".toList).length := by decide +kernel
  have hdistinct : (terms "how to stop injection".toList).Nodup := by decide +kernel
  obtain ⟨hform, hstrong⟩ := lexicalScore_closed_form
  refine ⟨hq, ht, ?_, hlength, hdistinct, hstrong ℚ _ hlength hdistinct⟩
  have hshared : shared (terms "cross site".toList) (terms "Site map, site plan".toList) = 2 := by decide +kernel
  have hwords : (terms "cross site".toList).length = 2 := by decide +kernel
  have hwords' : (terms "Site map, site plan".toList).length = 4 := by decide +kernel
  rw [(hform ℚ _ _ hq ht).1, hshared, hwords, hwords']
  norm_num

end Exact

end Compendium.Search
