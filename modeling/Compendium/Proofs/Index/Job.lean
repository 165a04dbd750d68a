import Compendium.Proofs.Index.Reindex
import Compendium.Proofs.Store.Upkeep

/-!
Reindexing a document step by step. Other work may come in between: the document was read at the beginning, and by
the time its chunks are stored it may have been rewritten or deleted.
-/
namespace Compendium

open Compendium.Action (runOn runOn_bind runOn_bind_ok Leads Frame)

def StaysUpkept (b b' : Base) : Prop := b.store.Upkept → b'.store.Upkept

theorem frame_staysUpkept : Frame StaysUpkept where
  refl _ h := h
  trans h h' hu := h' (h hu)
  noting _ _ h := h

namespace Indexer

/-- A reindexing under way: its document as it was read, and what became of the segments so far. -/
structure Job where
  id : String
  document : Document
  left : Option Float
  segments : Nat
  position : Nat := 0
  made : List Chunk := []
  failed : Nat := 0
  ahead : List String

def start (ix : Indexer) (left : Option Float) (id : String) : Action Job := do
  let d ← Action.document id
  let segments ← ix.segmentsOf d
  return { id := id, document := d, left := left, segments := segments.length, ahead := segments }

namespace Job

def advance (ix : Indexer) (j : Job) : Action Job :=
  match j.ahead with
  | [] => return j
  | s :: rest => do
    let (result, left) ← embed ix.embedLimit j.left (Embedding.chunkInput j.document.category j.document.title s)
    match result with
    | .ok v =>
      let chunk : Chunk := ⟨← Action.newId, j.document.id, j.made.length, s, some v, some (← Action.now)⟩
      return { j with left := left, position := j.position + 1, made := j.made ++ [chunk], ahead := rest }
    | .error e =>
      if !isPassing e then throw e
      Action.log .warning "indexer" "_reindex" "Skipping chunk after embedding failure"
        [("document_id", .text j.document.id), ("segment", .nat j.position), ("error", .text e.message)]
      return { j with left := left, position := j.position + 1, failed := j.failed + 1, ahead := rest }

def advanceBy (ix : Indexer) : Nat → Job → Action Job
  | 0, j => return j
  | n + 1, j => do advanceBy ix n (← j.advance ix)

def finish (j : Job) : Action Reindexed := do
  Action.replaceChunks j.id j.made
  Action.measure (Meter.indexed j.made.length j.failed)
  let r : Reindexed := ⟨j.id, j.segments, j.made, j.failed⟩
  report j.document r
  return r

/-- Embedding the segments one by one and then finishing is what embedding them all and finishing is. -/
theorem advanceBy_finish (ix : Indexer) (j : Job) :
    (j.advanceBy ix j.ahead.length >>= finish) =
      embedAll ix j.document j.left j.position j.made j.failed j.ahead >>= fun r =>
        finish { j with made := r.1, failed := r.2 } := by
  obtain ⟨id, d, left, segments, position, made, failed, ahead⟩ := j
  induction ahead generalizing left position made failed with
  | nil => rfl
  | cons s rest ih =>
    simp only [embedAll, List.length_cons, advanceBy, advance, bind_assoc]
    congr 1
    funext p
    obtain ⟨result, left'⟩ := p
    cases result with
    | ok v =>
      simp only [bind_assoc, pure_bind]
      congr 1
      funext i
      congr 1
      funext t
      exact ih _ _ _ _
    | error e =>
      dsimp only
      split <;> simp only [bind_assoc, pure_bind]
      · congr 1
        funext u
        congr 1
        funext u
        exact ih _ _ _ _
      · congr 1
        funext u
        exact ih _ _ _ _

/-- The chunks made so far name the document and are numbered from zero on without gaps. -/
structure Sound (j : Job) : Prop where
  own : j.document.id = j.id
  document : ∀ c ∈ j.made, c.document = j.id
  numbered : Store.Consecutive (j.made.map Chunk.index)

theorem Sound.add {j : Job} (h : j.Sound) {c : Chunk} (hd : c.document = j.document.id)
    (hi : c.index = j.made.length) (left : Option Float) (ahead : List String) :
    Sound { j with left := left, position := j.position + 1, made := j.made ++ [c], ahead := ahead } where
  own := h.own
  document := by
    intro c' hc
    rcases List.mem_append.1 hc with hc | hc
    · exact h.document c' hc
    · rw [List.mem_singleton.1 hc, hd, h.own]
  numbered := by
    have hn := h.numbered
    rw [Store.Consecutive, List.length_map] at hn
    simp [Store.Consecutive, List.range_succ, hn, hi]

/-- The next segment gets the next number, or none at all. -/
theorem advance_sound {ix : Indexer} {j j' : Job} (hj : j.Sound) {b b' : Base}
    (h : runOn (j.advance ix) b = (.ok j', b')) : j'.Sound := by
  rw [advance] at h
  split at h
  next => cases h; exact hj
  next s rest hahead =>
    obtain ⟨⟨result, left⟩, c, -, h⟩ := runOn_bind_ok.1 h
    cases result with
    | ok v =>
      obtain ⟨i, c, hid, h⟩ := runOn_bind_ok.1 h
      obtain ⟨t, c', ht, h⟩ := runOn_bind_ok.1 h
      cases h
      exact hj.add rfl rfl left rest
    | error e =>
      dsimp only at h
      split at h
      · cases h
      · obtain ⟨u, c, -, h⟩ := runOn_bind_ok.1 h
        cases h
        exact ⟨hj.own, hj.document, hj.numbered⟩

theorem leads_advance (ix : Indexer) (j : Job) : Leads Untouched (j.advance ix) := by
  have hf := frame_untouched
  rw [advance]
  split
  · exact Action.leads_pure hf _
  · refine Action.leads_bind hf (leads_embed _ _ _) fun r => ?_
    obtain ⟨result, left⟩ := r
    cases result with
    | ok v =>
      refine Action.leads_bind hf leads_newId fun i => ?_
      exact Action.leads_bind hf (Action.leads_now hf) fun t => Action.leads_pure hf _
    | error e =>
      dsimp only
      split
      · exact fun b => hf.refl b
      · exact Action.leads_bind hf (Action.leads_log hf _ _ _ _ _) fun _ => Action.leads_pure hf _

theorem advanceBy_sound {ix : Indexer} {n : Nat} {j j' : Job} (hj : j.Sound) {b b' : Base}
    (h : runOn (j.advanceBy ix n) b = (.ok j', b')) : j'.Sound := by
  induction n generalizing j b with
  | zero =>
    cases h
    exact hj
  | succ n ih =>
    obtain ⟨j₁, c, hone, h⟩ := runOn_bind_ok.1 h
    exact ih (advance_sound hj hone) h

/-- Embedding, however long it goes on, touches neither documents nor chunks. -/
theorem leads_advanceBy (ix : Indexer) (n : Nat) (j : Job) : Leads Untouched (j.advanceBy ix n) := by
  induction n generalizing j with
  | zero => exact Action.leads_pure frame_untouched _
  | succ n ih => exact Action.leads_bind frame_untouched (leads_advance ix j) fun j => ih j

/-- Whatever has happened to the document since it was read, its chunks are stored without harm. -/
theorem Sound.leads_finish {j : Job} (hj : j.Sound) : Leads StaysUpkept j.finish := by
  have hf := frame_staysUpkept
  have hreplace : Leads StaysUpkept (Action.replaceChunks j.id j.made) := by
    intro b hu
    rcases runOn_replaceChunks j.id j.made b with ⟨e, hr⟩ | ⟨now, s, hs, hr⟩
    · rwa [hr]
    · have hindexes := hj.numbered
      rw [Store.Consecutive, List.length_map, List.range_eq_range'] at hindexes
      rw [hr]
      exact hu.replace hj.document (by rw [byIndex_eq_self hindexes]; exact hj.numbered) hs
  refine Action.leads_bind hf hreplace fun _ => ?_
  refine Action.leads_bind hf (fun b hu => hu) fun _ => ?_
  refine Action.leads_bind hf (fun b => ?_) fun _ => Action.leads_pure hf _
  obtain ⟨es, hes⟩ := runOn_report j.document ⟨j.id, j.segments, j.made, j.failed⟩ b
  rw [hes]
  exact hf.noting b es

end Job

/-- A reindexing begins soundly, with no chunks made. -/
theorem start_sound {ix : Indexer} {left : Option Float} {id : String} {j : Job} {b b' : Base} (hs : b.store.Sound)
    (h : runOn (ix.start left id) b = (.ok j, b')) : j.Sound := by
  obtain ⟨d, c, hd, h⟩ := runOn_bind_ok.1 h
  obtain ⟨segments, c', -, h⟩ := runOn_bind_ok.1 h
  cases h
  rcases Action.runOn_document id b with hread | ⟨-, es, hread⟩
  · cases hread.symm.trans hd
  · have hfound : (Store.document id b.store).outcome = .ok d := congrArg Prod.fst (hread.symm.trans hd)
    exact ⟨(Store.document_outcome hs hfound).2, nofun, rfl⟩

theorem leads_start (ix : Indexer) (left : Option Float) (id : String) : Leads Untouched (ix.start left id) := by
  have hf := frame_untouched
  refine Action.leads_bind hf (Action.leads_document hf id) fun d => ?_
  refine Action.leads_bind hf (fun b => ?_) fun _ => Action.leads_pure hf _
  obtain ⟨es, hes⟩ := runOn_segmentsOf ix d b
  rw [hes]
  exact hf.noting b es

/-- A reindexing that nothing interrupts reads, embeds and finishes. -/
theorem remake_eq (ix : Indexer) (left : Option Float) (id : String) :
    ix.remake left id = (do
      let j ← ix.start left id
      let j ← j.advanceBy ix j.ahead.length
      j.finish) := by
  simp only [remake, start, bind_assoc, pure_bind]
  congr 1
  funext d
  congr 1
  funext segments
  let j : Job := { id := id, document := d, left := left, segments := segments.length, ahead := segments }
  exact (Job.advanceBy_finish ix j).symm

theorem Untouched.staysUpkept {b b' : Base} (h : Untouched b b') : StaysUpkept b b' := by
  intro hu
  rwa [h.store]

theorem leads_remake (ix : Indexer) (left : Option Float) (id : String) : Leads StaysUpkept (ix.remake left id) := by
  rw [remake_eq]
  intro b hu
  rcases hstart : runOn (ix.start left id) b with ⟨started, c⟩
  have hc : c.store.Upkept := ((leads_start ix left id).of_run hstart).staysUpkept hu
  rw [runOn_bind, hstart]
  cases started with
  | error e => exact hc
  | ok j =>
    dsimp only
    rcases hadvance : runOn (j.advanceBy ix j.ahead.length) c with ⟨advanced, c'⟩
    have hc' : c'.store.Upkept := ((j.leads_advanceBy ix _).of_run hadvance).staysUpkept hc
    rw [runOn_bind, hadvance]
    cases advanced with
    | error e => exact hc'
    | ok j' => exact (Job.advanceBy_sound (start_sound hu.sound hstart) hadvance).leads_finish c' hc'

theorem leads_reindex {R : Base → Base → Prop} (hR : Frame R) (ix : Indexer) {id : String}
    (h : ∀ left, Leads R (ix.remake left id)) (limit : Option Number.Numeral) : Leads R (ix.reindex id limit) := by
  have hwithin : ∀ left, Leads R (ix.reindexWithin left id) := by
    intro left
    exact Action.leads_probed hR _ _ (h left)
  cases limit with
  | none => exact hwithin none
  | some t =>
    dsimp only [reindex]
    split
    · exact Action.leads_throw hR _
    · refine Action.leads_bind hR (Action.leads_attempt (hwithin _)) fun outcome => ?_
      split
      · exact Action.leads_throw hR _
      · exact Action.leads_ofExcept hR _

/-- Reindexing a document keeps the store up, whatever fails on the way. -/
theorem staysUpkept_reindex (ix : Indexer) (id : String) (limit : Option Number.Numeral) :
    Leads StaysUpkept (ix.reindex id limit) :=
  leads_reindex frame_staysUpkept ix (fun left => leads_remake ix left id) limit

end Indexer

end Compendium
