import Mathlib.Algebra.BigOperators.Group.List.Basic
import Mathlib.Algebra.Ring.Int.Defs
import Mathlib.Algebra.Ring.Nat
import Mathlib.Data.List.Induction
import Compendium.Index.Rebuild
import Compendium.Proofs.Index.Outcome

/-!
Documents that are reindexed one after the other, whatever comes of each, and what a progress counts of them. Both kinds
of batches are such a series with a rule for its end; what they log in between plays no part in it.
-/
namespace Compendium

open Compendium.Action (runOn)

/-! Counting attempts. -/

abbrev Attempt := String × Except Fault Reindexed

def failures (xs : List Attempt) : List (String × Fault) :=
  xs.filterMap fun x =>
    match x.2 with
    | .ok _ => none
    | .error e => some (x.1, e)

def successes (xs : List Attempt) : List Reindexed := xs.filterMap fun x => x.2.toOption

namespace Progress

def counting (p : Progress) (x : Attempt) : Progress :=
  match x.2 with
  | .ok r => { p.addDone r with processed := p.processed + 1 }
  | .error e => { p.addFailed x.1 e with processed := p.processed + 1 }

def course (p : Progress) : List Attempt → List Progress
  | [] => []
  | x :: xs => p.counting x :: course (p.counting x) xs

/-- A progress that counts these attempts and nothing else. -/
structure Accounts (p : Progress) (xs : List Attempt) : Prop where
  processed : p.processed = xs.length
  failed : p.failed = (failures xs).length
  errors : p.errors = (failures xs).map fun x => errorEntry x.1 x.2
  chunks : p.chunks = (((successes xs).map fun r => r.chunks.length).sum : Nat)
  skipped : p.skipped = (((successes xs).map Reindexed.failed).sum : Nat)

theorem counting_total (p : Progress) (x : Attempt) : (p.counting x).total = p.total := by
  obtain ⟨id, outcome⟩ := x
  cases outcome <;> rfl

theorem foldl_counting_total (p : Progress) (xs : List Attempt) : (xs.foldl counting p).total = p.total := by
  induction xs generalizing p with
  | nil => rfl
  | cons x xs ih => rw [List.foldl_cons, ih, counting_total]

theorem Accounts.counting {p : Progress} {xs : List Attempt} (h : p.Accounts xs) (x : Attempt) :
    (p.counting x).Accounts (xs ++ [x]) := by
  obtain ⟨id, outcome⟩ := x
  cases outcome with
  | ok r =>
    constructor
    · simp [Progress.counting, addDone, h.processed]
    · simp [Progress.counting, addDone, failures, h.failed]
    · simp [Progress.counting, addDone, failures, h.errors]
    · simp [Progress.counting, addDone, successes, h.chunks, Except.toOption]
    · simp [Progress.counting, addDone, successes, h.skipped, Except.toOption]
  | error e =>
    constructor
    · simp [Progress.counting, addFailed, h.processed]
    · simp [Progress.counting, addFailed, failures, h.failed]
    · simp [Progress.counting, addFailed, failures, h.errors]
    · simp [Progress.counting, addFailed, successes, h.chunks, Except.toOption]
    · simp [Progress.counting, addFailed, successes, h.skipped, Except.toOption]

/-- Counting from nothing accounts for all that was counted. -/
theorem accounts_foldl {p : Progress} (h : p.Accounts []) (xs : List Attempt) : (xs.foldl counting p).Accounts xs := by
  induction xs using List.reverseRecOn with
  | nil => exact h
  | append_singleton xs x ih =>
    rw [List.foldl_append]
    exact ih.counting x

theorem getLastD_course (p : Progress) (xs : List Attempt) : (p.course xs).getLastD p = xs.foldl counting p := by
  induction xs generalizing p with
  | nil => rfl
  | cons x xs ih => rw [course, List.getLastD_cons, ih, List.foldl_cons]

/-- Each attempt counts one more document as processed. -/
theorem processed_course (p : Progress) (xs : List Attempt) :
    (p.course xs).map Progress.processed = (List.range xs.length).map fun i => p.processed + (i + 1 : Nat) := by
  induction xs generalizing p with
  | nil => rfl
  | cons x xs ih =>
    have hone : (p.counting x).processed = p.processed + 1 := by
      obtain ⟨id, outcome⟩ := x
      cases outcome <;> rfl
    rw [course, List.map_cons, ih, List.length_cons, List.range_succ_eq_map, List.map_cons, List.map_map, hone]
    simp only [List.cons.injEq, Nat.zero_add, Nat.cast_one, true_and]
    refine List.map_congr_left fun i _ => ?_
    simp only [Function.comp_apply, Nat.cast_add, Nat.cast_one, Nat.succ_eq_add_one]
    omega

end Progress

namespace Indexer

theorem runOn_seconds (b : Base) : ∃ t, runOn seconds b = (.ok t, b) := ⟨_, rfl⟩

/-! One document after the other. -/

/-- What reindexing documents one after the other comes to, and the base that it leaves. -/
def attempts (ix : Indexer) : List String → Base → List (Except Fault Reindexed) × Base
  | [], b => ([], b)
  | id :: rest, b =>
    let first := runOn (ix.reindex id) b
    let others := attempts ix rest first.2
    (first.1 :: others.1, others.2)

/-- There is one attempt for each document. -/
theorem length_attempts (ix : Indexer) (ids : List String) (b : Base) : (ix.attempts ids b).1.length = ids.length := by
  induction ids generalizing b with
  | nil => rfl
  | cons id rest ih => rw [attempts, List.length_cons, List.length_cons, ih]

/-- What an attempt came to belongs to a document. -/
theorem exists_of_mem_attempts {ix : Indexer} {ids : List String} {b : Base} {outcome : Except Fault Reindexed}
    (h : outcome ∈ (ix.attempts ids b).1) : ∃ id, (id, outcome) ∈ ids.zip (ix.attempts ids b).1 := by
  rw [← List.map_snd_zip (length_attempts ix ids b).le] at h
  obtain ⟨⟨id, outcome⟩, hmem, rfl⟩ := List.mem_map.1 h
  exact ⟨id, hmem⟩

/-- Every document is attempted. -/
theorem exists_attempt (ix : Indexer) {ids : List String} {id : String} (h : id ∈ ids) (b : Base) :
    ∃ outcome, (id, outcome) ∈ ids.zip (ix.attempts ids b).1 := by
  rw [← List.map_fst_zip (length_attempts ix ids b).ge] at h
  obtain ⟨⟨id, outcome⟩, hmem, rfl⟩ := List.mem_map.1 h
  exact ⟨outcome, hmem⟩

/-- What holds of a base before and after every attempt, and what each attempt comes to where it holds. -/
theorem attempts_invariant {ix : Indexer} {R : String → Except Fault Reindexed → Prop} {I : Base → Prop}
    (hstep : ∀ id b, I b → R id (runOn (ix.reindex id) b).1 ∧ I (runOn (ix.reindex id) b).2) (ids : List String) :
    ∀ b, I b → List.Forall₂ R ids (ix.attempts ids b).1 ∧ I (ix.attempts ids b).2 := by
  induction ids with
  | nil => exact fun b hb => ⟨.nil, hb⟩
  | cons id rest ih =>
    intro b hb
    obtain ⟨hfirst, hnext⟩ := hstep id b hb
    obtain ⟨hrest, hlast⟩ := ih _ hnext
    exact ⟨.cons hfirst hrest, hlast⟩

/-- What was logged before makes no difference to the attempts. -/
theorem attempts_twin (ix : Indexer) (ids : List String) {b c : Base} (h : b.Twin c) :
    (ix.attempts ids c).1 = (ix.attempts ids b).1 ∧ (ix.attempts ids b).2.Twin (ix.attempts ids c).2 := by
  induction ids generalizing b c with
  | nil => exact ⟨rfl, h⟩
  | cons id rest ih =>
    obtain ⟨houtcome, htwin⟩ := blind_reindex ix id b c h
    obtain ⟨hrest, hlast⟩ := ih htwin
    exact ⟨by rw [attempts, attempts, houtcome, hrest], hlast⟩

/-- An attempt that succeeds, or fails in a way that is reported and passed over. -/
def Reported (outcome : Except Fault Reindexed) : Prop := ∀ e, outcome = .error e → e.isA .general = true

instance (outcome : Except Fault Reindexed) : Decidable (Reported outcome) :=
  match outcome with
  | .ok _ => isTrue fun _ h => by cases h
  | .error e => decidable_of_iff (e.isA .general = true) ⟨fun h e' he => by cases he; exact h, fun h => h e rfl⟩

end Indexer

end Compendium
