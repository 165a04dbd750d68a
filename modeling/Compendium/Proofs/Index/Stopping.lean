import Mathlib.Order.Bounds.Basic
import Compendium.Proofs.Index.Attempts
import Compendium.Proofs.Index.Survivors

/-!
When a batch stops. It goes on until as many documents as it may lose have failed in a row; whatever happens after
that, the attempts up to there are accounted for, and nothing is done for the others.
-/
namespace Compendium

open Compendium.Action (runOn runOn_bind)

namespace Indexer

/-- Among attempts that follow `before` failures, the last `k` up to the `j`th failed. -/
def FailedInRow (k before : Nat) (outcomes : List (Except Fault Reindexed)) (j : Nat) : Prop :=
  0 < j ∧ k ≤ before + j ∧ ∀ i < j, j ≤ i + k → ∃ e, outcomes[i]? = some (.error e)

/-- After how many attempts `k` have failed in a row for the first time, if ever. -/
def stop? (k : Nat) : (before : Nat) → List (Except Fault Reindexed) → Option Nat
  | _, [] => none
  | _, .ok _ :: rest => (stop? k 0 rest).map (· + 1)
  | before, .error _ :: rest => if k ≤ before + 1 then some 1 else (stop? k (before + 1) rest).map (· + 1)

/-- The first number with a property, if there is one. -/
inductive IsFirst (P : Nat → Prop) : Option Nat → Prop where
  | least {j : Nat} (h : IsLeast {j | P j} j) : IsFirst P (some j)
  | never (h : ∀ j, ¬P j) : IsFirst P none

theorem IsFirst.succ {P Q : Nat → Prop} (h : ∀ j, P j ↔ ∃ n, j = n + 1 ∧ Q n) {o : Option Nat}
    (ho : IsFirst Q o) : IsFirst P (o.map (· + 1)) := by
  cases ho with
  | @least n hn =>
    refine .least ⟨(h _).2 ⟨n, rfl, hn.1⟩, fun j hj => ?_⟩
    obtain ⟨m, rfl, hm⟩ := (h j).1 hj
    exact Nat.succ_le_succ (hn.2 hm)
  | never hnever =>
    apply IsFirst.never
    intro j hj
    obtain ⟨n, -, hn⟩ := (h j).1 hj
    exact hnever n hn

theorem IsFirst.eq_some_iff {P : Nat → Prop} {o : Option Nat} (ho : IsFirst P o) {j : Nat} :
    o = some j ↔ IsLeast {j | P j} j := by
  cases ho with
  | @least n hn => exact ⟨fun h => (Option.some.inj h) ▸ hn, fun hj => congrArg some (hn.unique hj)⟩
  | never hnever => exact ⟨nofun, fun hj => absurd hj.1 (hnever j)⟩

theorem IsFirst.eq_none {P : Nat → Prop} {o : Option Nat} (ho : IsFirst P o) (h : ∀ j, ¬P j) : o = none := by
  cases ho with
  | @least n hn => exact absurd hn.1 (h n)
  | never hnever => rfl

section
variable {k before : Nat} {outcomes : List (Except Fault Reindexed)}

theorem not_failedInRow_nil (hk : 1 ≤ k) (j : Nat) : ¬FailedInRow k before [] j := by
  rintro ⟨hj, -, hall⟩
  obtain ⟨e, he⟩ := hall (j - 1) (by omega) (by omega)
  cases he

/-- A success lies before any failures in a row. -/
theorem failedInRow_ok (hb : before < k) (r : Reindexed) (j : Nat) :
    FailedInRow k before (.ok r :: outcomes) j ↔ ∃ n, j = n + 1 ∧ FailedInRow k 0 outcomes n := by
  constructor
  · rintro ⟨hj, hk, hall⟩
    have hfirst : k < j := by
      by_contra hn
      obtain ⟨e, he⟩ := hall 0 hj (by omega)
      cases he
    refine ⟨j - 1, by omega, by omega, by omega, fun i hi hik => ?_⟩
    obtain ⟨e, he⟩ := hall (i + 1) (by omega) (by omega)
    exact ⟨e, by simpa using he⟩
  · rintro ⟨n, rfl, hn, hk, hall⟩
    refine ⟨by omega, by omega, fun i hi hik => ?_⟩
    obtain ⟨i, rfl⟩ := Nat.exists_eq_succ_of_ne_zero (show i ≠ 0 by omega)
    obtain ⟨e, he⟩ := hall i (by omega) (by omega)
    exact ⟨e, by simpa using he⟩

/-- A failure adds to those before it. -/
theorem failedInRow_error (hb : before + 1 < k) (e : Fault) (j : Nat) :
    FailedInRow k before (.error e :: outcomes) j ↔ ∃ n, j = n + 1 ∧ FailedInRow k (before + 1) outcomes n := by
  constructor
  · rintro ⟨hj, hk, hall⟩
    refine ⟨j - 1, by omega, by omega, by omega, fun i hi hik => ?_⟩
    obtain ⟨e', he⟩ := hall (i + 1) (by omega) (by omega)
    exact ⟨e', by simpa using he⟩
  · rintro ⟨n, rfl, hn, hk, hall⟩
    refine ⟨by omega, by omega, fun i hi hik => ?_⟩
    cases i with
    | zero => exact ⟨e, rfl⟩
    | succ i =>
      obtain ⟨e', he⟩ := hall i (by omega) (by omega)
      exact ⟨e', by simpa using he⟩

end

/-- A batch stops where `k` attempts have failed in a row for the first time, and nowhere if there is no such place. -/
theorem isFirst_stop? {k before : Nat} (hb : before < k) (outcomes : List (Except Fault Reindexed)) :
    IsFirst (FailedInRow k before outcomes) (stop? k before outcomes) := by
  induction outcomes generalizing before with
  | nil => exact .never (not_failedInRow_nil (by omega))
  | cons outcome rest ih =>
    cases outcome with
    | ok r => exact (ih (by omega)).succ (failedInRow_ok hb r)
    | error e =>
      rw [stop?]
      by_cases hlast : k ≤ before + 1
      · rw [if_pos hlast]
        refine .least ⟨⟨Nat.one_pos, hlast, fun i hi _ => ?_⟩, fun j hj => hj.1⟩
        obtain rfl : i = 0 := by omega
        exact ⟨e, rfl⟩
      · rw [if_neg hlast]
        exact (ih (by omega)).succ (failedInRow_error (by omega) e)

/-! The batch. -/

def made (k before : Nat) (outcomes : List (Except Fault Reindexed)) : Nat :=
  (stop? k before outcomes).getD outcomes.length

theorem made_ok (k before : Nat) (r : Reindexed) (rest : List (Except Fault Reindexed)) :
    made k before (.ok r :: rest) = made k 0 rest + 1 := by
  rw [made, made, stop?]
  cases stop? k 0 rest <;> rfl

theorem made_error {k before : Nat} (h : ¬k ≤ before + 1) (e : Fault) (rest : List (Except Fault Reindexed)) :
    made k before (.error e :: rest) = made k (before + 1) rest + 1 := by
  rw [made, made, stop?, if_neg h]
  cases stop? k (before + 1) rest <;> rfl

/-- What a batch leaves after some of its attempts: a progress that accounts for these, and the base that they leave. -/
structure Left (ix : Indexer) (ids : List String) (b : Base) (n : Nat) (p q : Progress) (c : Base) : Prop where
  progress : ∃ ended, q =
    { ((ids.zip (ix.attempts ids b).1).take n).foldl Progress.counting p with status := q.status, ended := ended }
  base : (ix.attempts (ids.take n) b).2.Twin c

theorem Left.cons {ix : Indexer} {id : String} {rest : List String} {b c d : Base} {outcome : Except Fault Reindexed}
    (hfirst : runOn (ix.reindex id) b = (outcome, c)) {n : Nat} {p q : Progress}
    (h : Left ix rest c n (p.counting (id, outcome)) q d) : Left ix (id :: rest) b (n + 1) p q d where
  progress := by
    obtain ⟨ended, hq⟩ := h.progress
    exact ⟨ended, by rw [attempts, hfirst]; exact hq⟩
  base := by
    rw [List.take_succ_cons, attempts, hfirst]
    exact h.base

theorem Left.of_twin {ix : Indexer} {ids : List String} {b c d : Base} (hbc : b.Twin c) {n : Nat} {p q : Progress}
    (h : Left ix ids c n p q d) : Left ix ids b n p q d where
  progress := (ix.attempts_twin ids hbc).1 ▸ h.progress
  base := (ix.attempts_twin (ids.take n) hbc).2.trans h.base

/-- The loop of a batch makes its attempts up to the one that stops it, and fails if there is one. -/
theorem runOn_reindexEach (ix : Indexer) (most : Int) (ids : List String) :
    ∀ (before : Nat) (p : Progress) (b : Base),
      (∀ o ∈ (ix.attempts ids b).1.take (made most.toNat before (ix.attempts ids b).1), Reported o) →
      ∃ q c, runOn (ix.reindexEach most before p ids) b = (.ok q, c) ∧
        q.status = (if (stop? most.toNat before (ix.attempts ids b).1).isSome then .failed else .completed) ∧
        Left ix ids b (made most.toNat before (ix.attempts ids b).1) p q c := by
  induction ids with
  | nil => exact fun before p b _ => ⟨_, b, rfl, rfl, ⟨_, rfl⟩, .refl b⟩
  | cons id rest ih =>
    intro before p b
    rcases hfirst : runOn (ix.reindex id) b with ⟨outcome, c⟩
    have hattempts : (ix.attempts (id :: rest) b).1 = outcome :: (ix.attempts rest c).1 := by rw [attempts, hfirst]
    rw [hattempts, reindexEach, runOn_bind, Action.runOn_attempt, hfirst]
    cases outcome with
    | ok r =>
      rw [made_ok, List.take_succ_cons, List.forall_mem_cons, stop?, Option.isSome_map]
      rintro ⟨-, hreported⟩
      obtain ⟨q, d, hrun, hstatus, hleft⟩ := ih 0 (p.counting (id, .ok r)) c hreported
      exact ⟨q, d, hrun, hstatus, hleft.cons hfirst⟩
    | error e =>
      -- The failure is logged, which the later attempts do not see.
      obtain ⟨es, hlog⟩ : ∃ es, runOn (reportFailure id (before + 1) e) c = (.ok (), c.noting es) := ⟨_, rfl⟩
      have htwin : c.Twin (c.noting es) := c.twin_noting es
      by_cases hlast : most.toNat ≤ before + 1
      · rw [made, stop?, if_pos hlast, Option.getD_some, List.take_succ_cons, List.forall_mem_cons]
        rintro ⟨hreported, -⟩
        have hgeneral := hreported e rfl
        have hstop : most ≤ ((before + 1 : Nat) : Int) := Int.toNat_le.1 hlast
        simp only [hgeneral, Bool.not_true, Bool.false_eq_true, if_false, runOn_bind, hlog, hstop, if_true]
        refine ⟨_, _, rfl, rfl, Left.cons hfirst ⟨⟨_, rfl⟩, ?_⟩⟩
        exact htwin.trans (Base.twin_noting _ _)
      · rw [made_error hlast, List.take_succ_cons, List.forall_mem_cons, stop?, if_neg hlast, Option.isSome_map]
        rintro ⟨hreported, hrest⟩
        have hgeneral := hreported e rfl
        rw [← (ix.attempts_twin rest htwin).1] at hrest ⊢
        obtain ⟨q, d, hrun, hstatus, hleft⟩ := ih (before + 1) (p.counting (id, .error e)) (c.noting es) hrest
        have hgo : ¬most ≤ ((before + 1 : Nat) : Int) := fun h => hlast (Int.toNat_le.2 h)
        refine ⟨q, d, ?_, hstatus, (hleft.of_twin htwin).cons hfirst⟩
        simp only [hgeneral, Bool.not_true, Bool.false_eq_true, if_false, runOn_bind, hlog, hgo]
        exact hrun

/-- What a batch over documents leaves when it has made the first `n` attempts: a progress that accounts for these, and
the base that they leave one after the other. -/
structure Counted (ix : Indexer) (ids : List String) (b : Base) (n : Nat) (p : Progress) (c : Base) : Prop where
  total : p.total = ids.length
  processed : p.processed = n
  accounts : p.Accounts ((ids.zip (ix.attempts ids b).1).take n)
  base : (ix.attempts (ids.take n) b).2.Twin c

theorem FailedInRow.le_length {k before : Nat} {outcomes : List (Except Fault Reindexed)} {j : Nat} (hk : 1 ≤ k)
    (h : FailedInRow k before outcomes j) : j ≤ outcomes.length := by
  obtain ⟨hj, -, hall⟩ := h
  obtain ⟨e, he⟩ := hall (j - 1) (by omega) (by omega)
  obtain ⟨hlt, -⟩ := List.getElem?_eq_some_iff.1 he
  omega

/-- No more attempts are made than there are. -/
theorem made_le_length {k : Nat} (hk : 1 ≤ k) (outcomes : List (Except Fault Reindexed)) :
    made k 0 outcomes ≤ outcomes.length := by
  have hfirst := isFirst_stop? hk outcomes
  rw [made]
  cases hstop : stop? k 0 outcomes with
  | none => exact Nat.le_refl _
  | some j => exact (hfirst.eq_some_iff.1 hstop).1.le_length hk

/-- A batch over attempts that are reported: how it ends, and what it counts. -/
theorem runOn_reindexMany {most : Int} (hmost : 1 ≤ most) (ix : Indexer) (ids : List String) (b : Base)
    (hreported : ∀ o ∈ (ix.attempts ids b).1.take (made most.toNat 0 (ix.attempts ids b).1), Reported o) :
    ∃ p c, runOn (ix.reindexMany ids most) b = (.ok p, c) ∧
      p.status = (if (stop? most.toNat 0 (ix.attempts ids b).1).isSome then .failed else .completed) ∧
      Counted ix ids b (made most.toNat 0 (ix.attempts ids b).1) p c := by
  have hle : made most.toNat 0 (ix.attempts ids b).1 ≤ ids.length :=
    length_attempts ix ids b ▸ made_le_length (by omega) _
  obtain ⟨t, hseconds⟩ := runOn_seconds b
  let start : Progress := { total := ids.length, status := .running, started := some t }
  obtain ⟨p, c, hrun, hstatus, ⟨ended, hp⟩, hbase⟩ := runOn_reindexEach ix most ids 0 start b hreported
  have hstart : start.Accounts [] := ⟨rfl, rfl, rfl, rfl, rfl⟩
  have hcounted := Progress.accounts_foldl hstart
    ((ids.zip (ix.attempts ids b).1).take (made most.toNat 0 (ix.attempts ids b).1))
  have htotal := Progress.foldl_counting_total start
    ((ids.zip (ix.attempts ids b).1).take (made most.toNat 0 (ix.attempts ids b).1))
  refine ⟨p, c, Action.runOn_bind_ok.2 ⟨t, b, hseconds, hrun⟩, hstatus, ?_, ?_, ?_, hbase⟩
  · rw [hp]
    exact htotal
  · rw [hp]
    refine hcounted.processed.trans ?_
    rw [List.length_take, List.length_zip, length_attempts, Nat.min_self, Nat.min_eq_left hle]
  · rw [hp]
    exact ⟨hcounted.processed, hcounted.failed, hcounted.errors, hcounted.chunks, hcounted.skipped⟩

/-- Let `j` be the first place where as many attempts as may fail have failed in a row. The batch makes the first `j`
attempts and is given up; if there is no such place, it makes all attempts and is completed. It accounts for the
attempts it made, and leaves what they leave: nothing is asked or stored for the documents behind them. -/
theorem reindexMany_stops_early {most : Int} (hmost : 1 ≤ most) (ix : Indexer) (ids : List String) (b : Base) :
    (∀ j, IsLeast {j | FailedInRow most.toNat 0 (ix.attempts ids b).1 j} j →
      (∀ o ∈ (ix.attempts ids b).1.take j, Reported o) →
        ∃ p c, runOn (ix.reindexMany ids most) b = (.ok p, c) ∧ p.status = .failed ∧ Counted ix ids b j p c) ∧
    ((∀ j, ¬FailedInRow most.toNat 0 (ix.attempts ids b).1 j) → (∀ o ∈ (ix.attempts ids b).1, Reported o) →
      ∃ p c, runOn (ix.reindexMany ids most) b = (.ok p, c) ∧ p.status = .completed ∧
        Counted ix ids b ids.length p c) := by
  have hk : 1 ≤ most.toNat := by omega
  have hfirst := isFirst_stop? hk (ix.attempts ids b).1
  constructor
  · intro j hj hreported
    have hstop := hfirst.eq_some_iff.2 hj
    have hmade : made most.toNat 0 (ix.attempts ids b).1 = j := by rw [made, hstop, Option.getD_some]
    obtain ⟨p, c, hrun, hstatus, hcounted⟩ := runOn_reindexMany hmost ix ids b (hmade ▸ hreported)
    rw [hmade] at hcounted
    rw [hstop] at hstatus
    exact ⟨p, c, hrun, hstatus, hcounted⟩
  · intro hnever hreported
    have hstop := hfirst.eq_none hnever
    have hmade : made most.toNat 0 (ix.attempts ids b).1 = ids.length := by
      rw [made, hstop, Option.getD_none, length_attempts]
    have hall : ∀ o ∈ (ix.attempts ids b).1.take (made most.toNat 0 (ix.attempts ids b).1), Reported o :=
      fun o ho => hreported o (List.mem_of_mem_take ho)
    obtain ⟨p, c, hrun, hstatus, hcounted⟩ := runOn_reindexMany hmost ix ids b hall
    rw [hmade] at hcounted
    rw [hstop] at hstatus
    exact ⟨p, c, hrun, hstatus, hcounted⟩

/-- Five documents, of which only the second and the last, which are the same, are stored. -/
def visits : List String := ["x", "a", "y", "z", "a"]

/-- The third and the fourth visit fail in a row, so that the fifth is not made. -/
theorem reindexMany_stops_early_visits :
    IsLeast {j | FailedInRow (Int.toNat 2) 0 (({} : Indexer).attempts visits skipping).1 j} 4 ∧
      ∃ p c, runOn (({} : Indexer).reindexMany visits 2) skipping = (.ok p, c) ∧ p.status = .failed ∧
        Counted {} visits skipping 4 p c := by
  have hstop : stop? (Int.toNat 2) 0 (({} : Indexer).attempts visits skipping).1 = some 4 := by decide +kernel
  have hreported : ∀ o ∈ (({} : Indexer).attempts visits skipping).1.take 4, Reported o := by decide +kernel
  have hleast := (isFirst_stop? (by decide) (({} : Indexer).attempts visits skipping).1).eq_some_iff.1 hstop
  exact ⟨hleast, (reindexMany_stops_early (by decide) {} visits skipping).1 4 hleast hreported⟩

end Indexer

end Compendium
