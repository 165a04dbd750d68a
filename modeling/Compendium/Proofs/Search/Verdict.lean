import Compendium.Search.Acceptance

/-!
How the judge comes to its verdict, in any arithmetic: one threshold is in force among all candidates, and only where
nothing passes it does a search fall back.
-/
namespace Compendium

open Number

namespace Search

variable {K : Type}

/-- Whether the floor decided what was accepted. -/
def Fallback.taken : Fallback K → Bool
  | .toFloor _ => true
  | _ => false

def noneStrong (scored : List (Scored K)) : Bool := !scored.any fun s => s.strong

theorem noneStrong_perm {xs ys : List (Scored K)} (h : xs.Perm ys) : noneStrong xs = noneStrong ys := by
  rw [noneStrong, noneStrong, h.any_eq]

variable [Scalar K]

/-- The threshold among these candidates; it is relaxed unless one of them is strong. -/
def Tuning.inForce (t : Tuning K) (threshold : K) (scored : List (Scored K)) : K :=
  if noneStrong scored then Scalar.larger (threshold * t.relaxFactor) t.crossLingualFloor else threshold

/-- The candidates that pass this threshold, or are strong and pass that of strong ones. -/
def Tuning.passing (t : Tuning K) (threshold : K) (scored : List (Scored K)) : List (Scored K) :=
  let inForce := t.inForce threshold scored
  scored.filter (passes inForce (Scalar.larger (inForce * t.relaxFactor) t.keywordFloor))

variable (t : Tuning K) (threshold : K)

inductive Judged : List (Scored K) → Verdict K → Prop where
  | nothing : Judged [] ⟨threshold, false, .notNeeded, []⟩
  | passed {scored : List (Scored K)} (h : t.passing threshold scored ≠ []) :
    Judged scored ⟨t.inForce threshold scored, noneStrong scored, .notNeeded, t.passing threshold scored⟩
  | low {best : Scored K} {rest : List (Scored K)} (h : t.passing threshold (best :: rest) = [])
    (hlow : Scalar.lt best.similarity t.fallbackFloor = true) :
    Judged (best :: rest)
      ⟨t.inForce threshold (best :: rest), noneStrong (best :: rest), .nothingRelevant best.similarity, []⟩
  | floored {best : Scored K} {rest : List (Scored K)} (h : t.passing threshold (best :: rest) = [])
    (hhigh : Scalar.lt best.similarity t.fallbackFloor = false) :
    Judged (best :: rest)
      ⟨t.inForce threshold (best :: rest), noneStrong (best :: rest), .toFloor best.similarity,
        (best :: rest).filter fun s => Scalar.le t.fallbackFloor s.similarity⟩

theorem judge_cons (best : Scored K) (rest : List (Scored K)) :
    judge t threshold (best :: rest) =
      let scored := best :: rest
      let inForce := t.inForce threshold scored
      if (t.passing threshold scored).isEmpty then
        if Scalar.lt best.similarity t.fallbackFloor then
          ⟨inForce, noneStrong scored, .nothingRelevant best.similarity, []⟩
        else
          ⟨inForce, noneStrong scored, .toFloor best.similarity,
            scored.filter fun s => Scalar.le t.fallbackFloor s.similarity⟩
      else ⟨inForce, noneStrong scored, .notNeeded, t.passing threshold scored⟩ := rfl

/-- The cases of the verdict are all there are. -/
theorem judge_judged (scored : List (Scored K)) : Judged t threshold scored (judge t threshold scored) := by
  cases scored with
  | nil => exact .nothing
  | cons best rest =>
    rw [judge_cons]
    dsimp only
    split
    next hempty =>
      have hnone := List.isEmpty_iff.1 hempty
      split
      next hlow => exact .low hnone hlow
      next hhigh => exact .floored hnone (Bool.eq_false_iff.2 hhigh)
    next hsome => exact .passed fun hnone => hsome (List.isEmpty_iff.2 hnone)

namespace Judged

variable {t threshold} {scored : List (Scored K)} {v : Verdict K}

/-- What is accepted are candidates, in their order. -/
theorem accepted_sublist (h : Judged t threshold scored v) : v.accepted.Sublist scored := by
  cases h with
  | nothing => exact List.Sublist.refl _
  | passed h => exact List.filter_sublist
  | low h hlow => exact List.nil_sublist _
  | floored h hhigh => exact List.filter_sublist

/-- What passes is accepted. -/
theorem passing_sublist (h : Judged t threshold scored v) : (t.passing threshold scored).Sublist v.accepted := by
  cases h with
  | nothing => exact List.Sublist.refl _
  | passed h => exact List.Sublist.refl _
  | low h hlow => exact h ▸ List.nil_sublist _
  | floored h hhigh => exact h ▸ List.nil_sublist _

/-- A search that falls back accepts what reaches the floor; any other one accepts what passes. -/
theorem accepted_eq (h : Judged t threshold scored v) :
    v.accepted =
      if v.fallback.taken then scored.filter fun s => Scalar.le t.fallbackFloor s.similarity
      else t.passing threshold scored := by
  cases h with
  | nothing => rfl
  | passed h => rfl
  | low h hlow => exact h.symm
  | floored h hhigh => rfl

theorem taken_eq (h : Judged t threshold scored v) :
    v.fallback.taken =
      ((t.passing threshold scored).isEmpty &&
        scored.head?.any fun best => !Scalar.lt best.similarity t.fallbackFloor) := by
  cases h with
  | nothing => rfl
  | passed h => rw [List.isEmpty_eq_false_iff.2 h]; rfl
  | low h hlow => rw [h]; simp [hlow, Fallback.taken]
  | floored h hhigh => rw [h]; simp [hhigh, Fallback.taken]

theorem relaxed_eq (h : Judged t threshold scored v) : v.relaxed = (!scored.isEmpty && noneStrong scored) := by
  cases h with
  | nothing => rfl
  | passed h =>
    cases scored with
    | nil => exact absurd rfl h
    | cons best rest => rfl
  | low h hlow => rfl
  | floored h hhigh => rfl

end Judged

/-- What is ranked are candidates. -/
theorem mem_rank {t : Tuning K} {query : String} {threshold weight : K} {topK : Int} {rated : List (Rated K)}
    {m : Match K} (h : m ∈ rank t query threshold topK weight rated) :
    ∃ r ∈ rated, m.chunk = r.candidate.chunk ∧ m.header = r.candidate.header ∧ m.similarity = r.similarity := by
  obtain ⟨s, hs, rfl⟩ := List.mem_map.1 h
  have hs := (judge_judged t threshold _).accepted_sublist.subset ((upTo_sublist topK _).subset hs)
  obtain ⟨r, hr, rfl⟩ := List.mem_map.1 (List.mem_mergeSort.1 hs)
  exact ⟨r, (List.mem_filter.1 hr).1, rfl, rfl, rfl⟩

/-- Candidates with chunks of their own are matches with chunks of their own. -/
theorem nodup_rank {rated : List (Rated K)} (h : (rated.map fun r => r.candidate.chunk.id).Nodup) (t : Tuning K)
    (query : String) (threshold weight : K) (topK : Int) :
    ((rank t query threshold topK weight rated).map fun m => m.chunk.id).Nodup := by
  have hscored : ((scoredOf t query rated).map fun s => s.candidate.chunk.id).Nodup := by
    refine ((List.mergeSort_perm _ _).map _).nodup_iff.2 ?_
    rw [List.map_map]
    exact (List.filter_sublist.map _).nodup h
  have hshown : (upTo topK (judge t threshold (scoredOf t query rated)).accepted).Sublist (scoredOf t query rated) :=
    (upTo_sublist topK _).trans (judge_judged t threshold _).accepted_sublist
  rw [rank, List.map_map]
  exact (hshown.map _).nodup hscored

end Search

end Compendium
