import Compendium.Proofs.Index.Reindex
import Compendium.Proofs.Journal

/-!
What a reindexing comes to, step by step, whatever was logged before: the document is read, its segments are embedded,
and its chunks are taken. Only if all of this goes through is it measured.
-/
namespace Compendium.Indexer

open Compendium.Action (runOn runOn_bind Blind)
open Number (Numeral)

/-! Reindexing does not look at the journal. -/

theorem blind_embed (limit : Option Numeral) (left : Option Float) (text : String) : Blind (embed limit left text) := by
  refine Action.blind_bind (Action.blind_ask text) fun o => ?_
  cases o with
  | vector v => exact Action.blind_pure _
  | fails e => exact Action.blind_pure _
  | hangs =>
    cases limit with
    | none => exact Action.blind_throw _
    | some t =>
      cases left with
      | none => exact Action.blind_pure _
      | some r =>
        dsimp only
        split
        · exact Action.blind_throw _
        · exact Action.blind_pure _

theorem blind_embedAll (ix : Indexer) (d : Document) (segments : List String) :
    ∀ (left : Option Float) (position : Nat) (made : List Chunk) (failed : Nat),
      Blind (embedAll ix d left position made failed segments) := by
  induction segments with
  | nil => exact fun _ _ made failed => Action.blind_pure (made, failed)
  | cons s rest ih =>
    intro left position made failed
    refine Action.blind_bind (blind_embed _ _ _) fun r => ?_
    obtain ⟨result, left'⟩ := r
    cases result with
    | ok v =>
      exact Action.blind_bind Action.blind_newId fun i => Action.blind_bind Action.blind_now fun t => ih _ _ _ _
    | error e =>
      dsimp only
      split
      · exact Action.blind_bind (Action.blind_throw e) fun _ =>
          Action.blind_bind (Action.blind_log _ _ _ _ _) fun _ => ih _ _ _ _
      · exact Action.blind_bind (Action.blind_log _ _ _ _ _) fun _ => ih _ _ _ _

theorem blind_segmentsOf (ix : Indexer) (d : Document) : Blind (ix.segmentsOf d) := by
  unfold segmentsOf
  dsimp only
  split
  · exact Action.blind_bind (Action.blind_log _ _ _ _ _) fun _ => Action.blind_pure _
  · exact Action.blind_pure _

theorem blind_report (d : Document) (r : Reindexed) : Blind (report d r) := by
  unfold report
  split
  · exact Action.blind_log _ _ _ _ _
  · exact Action.blind_log _ _ _ _ _

/-- What was logged has no part in a reindexing. -/
theorem blind_reindex (ix : Indexer) (id : String) : Blind (ix.reindex id) := by
  refine Action.blind_probed _ _ (Action.blind_bind (Action.blind_document id) fun d => ?_)
  refine Action.blind_bind (blind_segmentsOf ix d) fun segments => ?_
  refine Action.blind_bind (blind_embedAll ix d segments _ _ _ _) fun made => ?_
  refine Action.blind_bind (Action.blind_replaceChunks id made.1) fun _ => ?_
  refine Action.blind_bind (Action.blind_measure _) fun _ => ?_
  exact Action.blind_bind (blind_report _ _) fun _ => Action.blind_pure _

/-! The steps. -/

/-- Reading a document only adds to the journal. -/
theorem runOn_document_noting (id : String) (b : Base) :
    ∃ es, runOn (Action.document id) b = ((runOn (Action.document id) b).1, b.noting es) := by
  rcases Action.runOn_document id b with h | ⟨-, es, h⟩
  · exact ⟨[], by rw [h]; simp [Base.noting]⟩
  · exact ⟨es, by rw [h]⟩

theorem document_outcome (id : String) (b : Base) :
    (runOn (Action.document id) b).1 =
      if b.refusals.reading id then .error (.store (.unreadable id)) else (Store.document id b.store).outcome := by
  simp only [Action.document, runOn_bind, Action.runOn_refuseIf]
  cases b.refusals.reading id with
  | true => rfl
  | false => simp only [Bool.false_eq_true, if_false, Action.runOn_readStore]

theorem replaceChunks_outcome (id : String) (cs : List Chunk) (b : Base) :
    (runOn (Action.replaceChunks id cs) b).1 =
      if b.refusals.replacing id then .error (.store .diskFull)
      else (Store.replace (Time.ofUnixMicros b.clock) id cs b.store).map fun _ => () := by
  simp only [Action.replaceChunks, runOn_bind, Action.runOn_refuseIf, Action.runOn_now, Action.runOn_writeStore]
  cases b.refusals.replacing id with
  | true => rfl
  | false =>
    simp only [Bool.false_eq_true, if_false]
    cases Store.replace (Time.ofUnixMicros b.clock) id cs b.store <;> rfl

/-- Embeddings are not measured by the indexer. -/
theorem meter_embedAll (ix : Indexer) (d : Document) (segments : List String) :
    ∀ (left : Option Float) (position : Nat) (made : List Chunk) (failed : Nat) (b : Base),
      (runOn (embedAll ix d left position made failed segments) b).2.meter = b.meter := by
  induction segments with
  | nil => exact fun _ _ _ _ _ => rfl
  | cons s rest ih =>
    intro left position made failed b
    cases embedAll_turn ix d left position made failed s rest b with
    | kept v _ hrun => rw [hrun, ih]
    | passed left' es _ _ hrun =>
      rw [hrun, ih]
      rfl
    | ended e _ hrun => rw [hrun]

def comesTo (ix : Indexer) (id : String) (b : Base) : Except Fault Reindexed := do
  let d ← (runOn (Action.document id) b).1
  let segments := Segment.segmentText ix.budget d.content
  let made ← (runOn (embedAll ix d none 0 [] 0 segments) b).1
  let _ ← (runOn (Action.replaceChunks id made.1) b).1
  return ⟨id, segments.length, made.1, made.2⟩

def measuring (outcome : Except Fault Reindexed) (m : Meter) : Meter :=
  match outcome with
  | .ok r => m.indexed r.chunks.length r.failed
  | .error _ => m

theorem runOn_remake_comesTo (ix : Indexer) (id : String) (b : Base) :
    ∃ c, runOn (ix.remake none id) b = (ix.comesTo id b, c) ∧ c.meter = measuring (ix.comesTo id b) b.meter := by
  obtain ⟨es, hread⟩ := runOn_document_noting id b
  rw [remake, runOn_bind, hread, comesTo]
  cases (runOn (Action.document id) b).1 with
  | error e => exact ⟨_, rfl, rfl⟩
  | ok d =>
    obtain ⟨es', hcut⟩ := runOn_segmentsOf ix d (b.noting es)
    have htwin : b.Twin ((b.noting es).noting es') := (b.twin_noting es).trans (Base.twin_noting _ es')
    have hembed := (blind_embedAll ix d (Segment.segmentText ix.budget d.content) none 0 [] 0 _ _ htwin).1
    have hmeter := meter_embedAll ix d (Segment.segmentText ix.budget d.content) none 0 [] 0 ((b.noting es).noting es')
    have hsame : Untouched b
        (runOn (embedAll ix d none 0 [] 0 (Segment.segmentText ix.budget d.content)) ((b.noting es).noting es')).2 :=
      frame_untouched.trans (frame_untouched.trans (frame_untouched.noting b es) (frame_untouched.noting _ es'))
        (leads_embedAll ix d _ none 0 [] 0 _)
    dsimp only
    rw [runOn_bind, hcut, ok_bind]
    dsimp only
    rw [runOn_bind, ← hembed]
    generalize runOn (embedAll ix d none 0 [] 0 (Segment.segmentText ix.budget d.content))
      ((b.noting es).noting es') = embedded at hmeter hsame
    obtain ⟨outcome, c⟩ := embedded
    cases outcome with
    | error e => exact ⟨c, rfl, hmeter⟩
    | ok made =>
      obtain ⟨chunks, failed⟩ := made
      have hreplace : (runOn (Action.replaceChunks id chunks) c).1 = (runOn (Action.replaceChunks id chunks) b).1 := by
        rw [replaceChunks_outcome, replaceChunks_outcome, hsame.refusals, hsame.clock, hsame.store]
      rw [ok_bind, ← hreplace]
      dsimp only
      rw [runOn_bind]
      rcases runOn_replaceChunks id chunks c with ⟨e, hr⟩ | ⟨now, s, -, hr⟩
      · rw [hr]
        exact ⟨c, rfl, hmeter⟩
      · obtain ⟨es'', hreport⟩ :=
          runOn_report d ⟨id, (Segment.segmentText ix.budget d.content).length, chunks, failed⟩
          { c with store := s, meter := Meter.indexed chunks.length failed c.meter }
        rw [hr]
        simp only [runOn_bind, Action.runOn_measure, hreport, Action.runOn_pure]
        exact ⟨_, rfl, congrArg (Meter.indexed chunks.length failed) hmeter⟩

theorem runOn_reindex_comesTo (ix : Indexer) (id : String) (b : Base) :
    ∃ c, runOn (ix.reindex id) b = (ix.comesTo id b, c) ∧ c.meter = measuring (ix.comesTo id b) b.meter := by
  obtain ⟨c, hrun, hmeter⟩ := ix.runOn_remake_comesTo id b
  obtain ⟨e, he⟩ := Action.runOn_probed "indexer.reindex" [("document_id", .text id)] (ix.remake none id) b
  rw [hrun] at he
  exact ⟨_, he, hmeter⟩

/-- What a reindexing comes to can be told from the base before it. -/
theorem reindex_outcome (ix : Indexer) (id : String) (b : Base) : (runOn (ix.reindex id) b).1 = ix.comesTo id b := by
  obtain ⟨c, hrun, -⟩ := ix.runOn_reindex_comesTo id b
  rw [hrun]

/-- A reindexing is measured if it goes through. -/
theorem reindex_meter (ix : Indexer) (id : String) (b : Base) :
    (runOn (ix.reindex id) b).2.meter = measuring (runOn (ix.reindex id) b).1 b.meter := by
  obtain ⟨c, hrun, hmeter⟩ := ix.runOn_reindex_comesTo id b
  rw [hrun, hmeter]

end Compendium.Indexer
