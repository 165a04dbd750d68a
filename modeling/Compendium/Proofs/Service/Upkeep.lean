import Compendium.Proofs.Catalog.Upkeep
import Compendium.Proofs.Service.Bootstrap

/-!
Chunks over whole runs. Whatever is done to a knowledge base, and however the reindexings that are under way are
mixed with it, no chunk is without its document and the chunks of each document are numbered without gaps.
-/
namespace Compendium.Service

open Compendium.Action (runOn Leads)
open Indexer (Job)

/-- The calls that change the documents and their chunks. -/
inductive Task where
  | scan
  | create (category title content : String)
  | update (id category title content : String)
  | delete (id : String)
  | reindex (id : String) (limit : Option Number.Numeral)
  | rebuild
  | reindexMany (ids : List String) (most : Int)
  | bootstrap

def Task.work (s : Service) : Task → Action Unit
  | .scan => (fun _ => ()) <$> Catalog.scan s.root
  | .create category title content => (fun _ => ()) <$> Catalog.create s.root category title content
  | .update id category title content => (fun _ => ()) <$> Catalog.update s.root id category title content
  | .delete id => Catalog.delete id
  | .reindex id limit => (fun _ => ()) <$> s.indexer.reindex id limit
  | .rebuild => (fun _ => ()) <$> s.indexer.rebuild
  | .reindexMany ids most => (fun _ => ()) <$> s.indexer.reindexMany ids most
  | .bootstrap => (fun _ => ()) <$> s.bootstrap

/-- What happens next. A call is made as a whole; or a document begins to be reindexed, for its own sake or in a batch,
and this goes on between other acts until its chunks are stored or it is given up. -/
inductive Act where
  | outside (w : Surroundings)
  | call (t : Task)
  | start (left : Option Float) (id : String)
  | advance (n : Nat)
  | finish (n : Nat)
  | abandon (n : Nat)

/-- A knowledge base and the reindexings that are under way. -/
structure Busy where
  base : Base
  jobs : List Job := []

namespace Busy

/-- The `n`th reindexing does its next step; one that fails is over. -/
def advance (ix : Indexer) (w : Busy) (n : Nat) : Busy :=
  match w.jobs[n]? with
  | none => w
  | some j =>
    match runOn (j.advance ix) w.base with
    | (.ok j', b) => ⟨b, w.jobs.set n j'⟩
    | (.error _, b) => ⟨b, w.jobs.eraseIdx n⟩

/-- The `n`th reindexing stores its chunks if no segment is left. -/
def finish (w : Busy) (n : Nat) : Busy :=
  match w.jobs[n]? with
  | none => w
  | some j => if j.ahead.isEmpty then ⟨(runOn j.finish w.base).2, w.jobs.eraseIdx n⟩ else w

def act (s : Service) (w : Busy) : Act → Busy
  | .outside o => { w with base := s.perform w.base (.outside o) }
  | .call t => { w with base := (runOn (t.work s) w.base).2 }
  | .start left id =>
    match runOn (s.indexer.start left id) w.base with
    | (.ok j, b) => ⟨b, w.jobs ++ [j]⟩
    | (.error _, b) => { w with base := b }
  | .advance n => w.advance s.indexer n
  | .finish n => w.finish n
  | .abandon n => { w with jobs := w.jobs.eraseIdx n }

def run (s : Service) (w : Busy) (acts : List Act) : Busy := acts.foldl (act s) w

/-- The store is kept up, and so is what the reindexings have made. -/
structure Upkept (w : Busy) : Prop where
  store : w.base.store.Upkept
  jobs : ∀ j ∈ w.jobs, j.Sound

end Busy

theorem leads_work (s : Service) (t : Task) : Leads StaysUpkept (t.work s) := by
  have hedits := Catalog.admits_staysUpkept
  have hreindex : ∀ id, Leads StaysUpkept (s.indexer.reindex id) := fun id =>
    Indexer.staysUpkept_reindex s.indexer id none
  cases t with
  | scan => exact Action.leads_map (Catalog.leads_scan hedits.toAdmits s.root)
  | create category title content =>
    exact Action.leads_map (Catalog.leads_create hedits.toAdmits s.root category title content)
  | update id category title content =>
    exact Action.leads_map (Catalog.leads_update hedits s.root id category title content)
  | delete id => exact Catalog.leads_delete hedits id
  | reindex id limit => exact Action.leads_map (Indexer.staysUpkept_reindex s.indexer id limit)
  | rebuild => exact Action.leads_map (Indexer.leads_rebuild frame_staysUpkept s.indexer hreindex)
  | reindexMany ids most =>
    exact Action.leads_map (Indexer.leads_reindexMany frame_staysUpkept s.indexer ids most fun id _ => hreindex id)
  | bootstrap => exact Action.leads_map (leads_bootstrap_of hedits.toAdmits s hreindex)

namespace Busy

variable {w : Busy}

/-- A reindexing that goes on keeps up what there is. -/
theorem Upkept.advance (h : w.Upkept) (ix : Indexer) (n : Nat) : (w.advance ix n).Upkept := by
  dsimp only [Busy.advance]
  split
  next => exact h
  next j hj =>
    have hsound := h.jobs j (List.mem_of_getElem? hj)
    rcases hrun : runOn (j.advance ix) w.base with ⟨outcome, b⟩
    have hb : b.store.Upkept := ((Job.leads_advance ix j).of_run hrun).staysUpkept h.store
    cases outcome with
    | ok j' =>
      refine ⟨hb, fun k hk => ?_⟩
      rcases List.mem_or_eq_of_mem_set hk with hk | rfl
      · exact h.jobs k hk
      · exact Job.advance_sound hsound hrun
    | error e => exact ⟨hb, fun k hk => h.jobs k (List.mem_of_mem_eraseIdx hk)⟩

/-- A reindexing that stores its chunks keeps up what there is, even if its document has gone or changed. -/
theorem Upkept.finish (h : w.Upkept) (n : Nat) : (w.finish n).Upkept := by
  dsimp only [Busy.finish]
  split
  next => exact h
  next j hj =>
    split
    · have hsound := h.jobs j (List.mem_of_getElem? hj)
      exact ⟨hsound.leads_finish w.base h.store, fun k hk => h.jobs k (List.mem_of_mem_eraseIdx hk)⟩
    · exact h

/-- One act, whatever is under way. -/
theorem Upkept.act (h : w.Upkept) (s : Service) (a : Act) : (w.act s a).Upkept := by
  cases a with
  | outside o => exact ⟨h.store, h.jobs⟩
  | call t => exact ⟨leads_work s t w.base h.store, h.jobs⟩
  | start left id =>
    dsimp only [Busy.act]
    rcases hrun : runOn (s.indexer.start left id) w.base with ⟨outcome, b⟩
    have hb : b.store.Upkept := ((Indexer.leads_start s.indexer left id).of_run hrun).staysUpkept h.store
    cases outcome with
    | ok j =>
      refine ⟨hb, fun k hk => ?_⟩
      rcases List.mem_append.1 hk with hk | hk
      · exact h.jobs k hk
      · rw [List.mem_singleton.1 hk]
        exact Indexer.start_sound h.store.sound hrun
    | error e => exact ⟨hb, h.jobs⟩
  | advance n => exact h.advance s.indexer n
  | finish n => exact h.finish n
  | abandon n => exact ⟨h.store, fun k hk => h.jobs k (List.mem_of_mem_eraseIdx hk)⟩

/-- Acts in a row. -/
theorem Upkept.run (h : w.Upkept) (s : Service) (acts : List Act) : (w.run s acts).Upkept := by
  induction acts generalizing w with
  | nil => exact h
  | cons a rest ih => exact ih (h.act s a)

end Busy

/-- From an empty store of either kind, whatever is done and in whatever order: the answers of the store fit together,
and no more documents are indexed than there are. -/
theorem chunks_coherent (s : Service) (start : Base) (hnew : start.store.New) (acts : List Act) :
    let b := (Busy.run s { base := start } acts).base
    ∃ docs chunks c, b.store.Coherent docs chunks ∧ (runOn Catalog.coverage b).1 = .ok c ∧
      Catalog.Covers b.store c := by
  intro b
  have hstart : Busy.Upkept { base := start } := ⟨hnew.upkept, nofun⟩
  have hb : b.store.Upkept := (hstart.run s acts).store
  obtain ⟨docs, chunks, h⟩ := hb.coherent
  obtain ⟨c, hc, hcovers⟩ := Catalog.runOn_coverage h
  exact ⟨docs, chunks, c, h, hc, hcovers⟩

/-- A document is deleted while it is being reindexed, and then its chunks are to be stored. -/
theorem chunks_coherent_late :
    let acts : List Act := [.outside (around "x"), .call .bootstrap, .start none "id-0001", .advance 0,
      .call (.delete "id-0001"), .finish 0]
    let b := (Busy.run small { base := {} } acts).base
    ∃ docs chunks c, b.store.Coherent docs chunks ∧ (runOn Catalog.coverage b).1 = .ok c ∧
      Catalog.Covers b.store c :=
  chunks_coherent small {} .memory _

end Compendium.Service
