import Mathlib.Algebra.Order.Field.Rat
import Compendium.Proofs.Catalog.Scan
import Compendium.Proofs.Index.Job
import Compendium.Proofs.Number.Exact

/-!
What creating, rewriting and deleting documents leave as it is, even if they stop halfway. No chunk outlives its
document: a document that is rewritten loses its chunks, and one that is deleted takes them along.
-/
namespace Compendium.Catalog

open Compendium.Action (runOn runOn_bind Leads)

/-- Relations that every change of the catalogue stays within. -/
structure AdmitsEdits (R : Base → Base → Prop) : Prop extends Admits R where
  delete : ∀ id b s, Store.delete id b.store = .ok s → R b { b with store := s }
  deleteChunks : ∀ id b s, Store.deleteChunks id b.store = .ok s → R b { b with store := s }

section
variable {R : Base → Base → Prop}

theorem leads_create (hR : Admits R) (base : Path) (category title content : String) :
    Leads R (create base category title content) := by
  have hf := hR.toFrame
  refine Action.leads_bind hf (Action.leads_ofExcept hf _) fun category => ?_
  refine Action.leads_bind hf (Action.leads_ofExcept hf _) fun title => ?_
  refine Action.leads_bind hf (Action.leads_readStore hf _) fun found => ?_
  split
  · intro b
    exact hf.refl b
  · refine Action.leads_bind hf (leads_writeFiles hR _) fun _ => ?_
    refine Action.leads_bind hf (leads_writeFiles hR _) fun _ => ?_
    refine Action.leads_bind hf (leads_newDocument hR _ _ _ _) fun d => ?_
    refine Action.leads_bind hf (leads_putDocument hR d) fun _ => ?_
    exact Action.leads_bind hf (Action.leads_log hf _ _ _ _ _) fun _ => Action.leads_pure hf _

theorem leads_tidy (hR : Admits R) (base directory : Path) : Leads R (tidy base directory) := by
  have hf := hR.toFrame
  refine Action.leads_bind hf (Action.leads_get hf) fun b => ?_
  split
  · exact leads_writeFiles hR _
  · exact Action.leads_pure hf _

theorem leads_moveFile (hR : Admits R) (base old new : Path) : Leads R (moveFile base old new) := by
  have hf := hR.toFrame
  dsimp only [moveFile]
  split
  · refine Action.leads_bind hf (Action.leads_readFiles hf _) fun found => ?_
    split
    · exact Action.leads_bind hf (leads_writeFiles hR _) fun _ => leads_tidy hR base old.parent
    · exact Action.leads_pure hf _
  · exact Action.leads_pure hf _

theorem leads_update (hR : AdmitsEdits R) (base : Path) (id category title content : String) :
    Leads R (update base id category title content) := by
  have ha := hR.toAdmits
  have hf := ha.toFrame
  refine Action.leads_bind hf (Action.leads_ofExcept hf _) fun category => ?_
  refine Action.leads_bind hf (Action.leads_ofExcept hf _) fun title => ?_
  refine Action.leads_bind hf (Action.leads_document hf id) fun d => ?_
  refine Action.leads_bind hf (leads_writeFiles ha _) fun _ => ?_
  split
  -- the file moves first if the document has one; from then on the two cases are the same
  case' isTrue => refine Action.leads_bind hf (leads_moveFile ha _ _ _) fun _ => ?_
  all_goals
    refine Action.leads_bind hf (leads_writeFiles ha _) fun _ => ?_
    refine Action.leads_bind hf (Action.leads_now hf) fun now => ?_
    refine Action.leads_bind hf (leads_putDocument ha _) fun _ => ?_
    refine Action.leads_bind hf (Action.leads_writeStore hf fun b s h => hR.deleteChunks id b s h) fun _ => ?_
    exact Action.leads_bind hf (Action.leads_log hf _ _ _ _ _) fun _ => Action.leads_document hf id

theorem leads_deleteFile (hR : Admits R) (path : String) : Leads R (deleteFile path) := by
  have hf := hR.toFrame
  refine Action.leads_bind hf (Action.leads_attempt (leads_writeFiles hR _)) fun outcome => ?_
  cases outcome with
  | ok u => exact Action.leads_pure hf _
  | error e =>
    dsimp only
    split
    · intro b
      exact hf.refl b
    · exact Action.leads_log hf _ _ _ _ _

theorem leads_delete (hR : AdmitsEdits R) (id : String) : Leads R (delete id) := by
  have ha := hR.toAdmits
  have hf := ha.toFrame
  refine Action.leads_bind hf (Action.leads_document hf id) fun d => ?_
  split
  case' isTrue => refine Action.leads_bind hf (leads_deleteFile ha d.path) fun _ => ?_
  all_goals
    refine Action.leads_bind hf (Action.leads_writeStore hf fun b s h => hR.delete id b s h) fun _ => ?_
    exact Action.leads_log hf _ _ _ _ _

end

theorem admits_staysUpkept : AdmitsEdits StaysUpkept where
  toFrame := frame_staysUpkept
  put _ _ _ _ h hu := hu.put h
  issue _ hu := hu
  make _ _ hu := hu
  delete _ _ _ h hu := hu.emptied (Store.emptied_delete hu.sound h)
  deleteChunks _ _ _ h hu := hu.emptied (Store.emptied_deleteChunks hu.sound h)

/-! How much is indexed. -/

/-- When no more documents are indexed than there are, their share lies between none and all, however the arithmetic
rounds. -/
theorem percent_mem {K : Type} [LinearOrder K] [Field K] [IsStrictOrderedRing K] (r : Number.Rounding K) {c : Coverage}
    (h : c.indexed ≤ c.total) :
    letI := r.scalar
    (0 : K) ≤ c.percent ∧ c.percent ≤ (100 : K) := by
  have hbound : 100 ≤ 2 ^ 53 := by decide
  have hwhole : r.round (100 : Nat) = (100 : Nat) := r.whole 100 hbound
  have hcast : ((100 : Nat) : K) = 100 := Nat.cast_ofNat
  have h100 : (0 : K) ≤ (100 : Nat) := Nat.cast_nonneg 100
  dsimp only [Coverage.percent]
  rw [← hcast]
  split
  next => exact r.round_mem (x := (100 : Nat)) hbound h100 le_rfl
  next h0 =>
    obtain ⟨hpos, hle⟩ := r.ratio_mem h (Nat.pos_of_ne_zero h0)
    let share : K := @Number.Scalar.ratio K r.scalar c.indexed c.total
    have hshare : 0 ≤ r.round (share * r.round (100 : Nat)) ∧
      r.round (share * r.round (100 : Nat)) ≤ (100 : Nat) := by
      rw [hwhole]
      exact r.round_mem hbound (mul_nonneg hpos h100) (mul_le_of_le_one_left h100 hle)
    exact hshare

/-- A coverage that counts what a store holds; the share in percent lies between none and all. -/
structure Covers (s : Store) (c : Coverage) : Prop where
  total : (Store.documentCount s).outcome = .ok c.total
  indexed : (Store.indexedCount s).outcome = .ok c.indexed
  part : c.indexed ≤ c.total
  percent : ∀ r : Number.Rounding ℚ, letI := r.scalar; (0 : ℚ) ≤ c.percent ∧ c.percent ≤ (100 : ℚ)

/-- Where the answers of a store fit together, its coverage is right. -/
theorem runOn_coverage {b : Base} {docs : List Document} {chunks : String → List Chunk}
    (h : b.store.Coherent docs chunks) : ∃ c, (runOn coverage b).1 = .ok c ∧ Covers b.store c := by
  let full := docs.filter fun d => !(chunks d.id).isEmpty
  have hle : full.length ≤ docs.length := List.length_filter_le _ docs
  refine ⟨⟨docs.length, full.length⟩, ?_, h.total, h.indexed, hle, fun r => percent_mem r hle⟩
  simp only [coverage, runOn_bind, Action.runOn_readStore, h.total, Base.noting_store, h.indexed, Action.runOn_pure]
  rfl

end Compendium.Catalog
