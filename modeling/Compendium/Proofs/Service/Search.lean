import Compendium.Proofs.Report.Trailer
import Compendium.Proofs.Search.Category
import Compendium.Proofs.Store.Mirror
import Compendium.Service

/-!
Answering searches. A search leaves the store as it is but for one log, which names the documents that were found, and
context changes neither these documents nor their order.
-/
namespace Compendium

open Compendium.Action (runOn runOn_bind Leads)
open Number (Numeral)

namespace Store

inductive Logged (l : RetrievalLog) : Store → Store → Prop where
  | memory (m : Memory) : Logged l (.memory m) (.memory { m with logs := m.logs ++ [l] })
  | table (d : Database) (row : LogRow) (found : row.readFound.outcome = .ok (l.found, none)) :
      Logged l (.table d) (.table { d with tables := { d.tables with logs := d.tables.logs ++ [row] } })

theorem logged_of_addLog {l : RetrievalLog} {s s' : Store} (h : addLog l s = .ok s') : Logged l s s' := by
  cases s with
  | memory m =>
    cases h
    exact .memory m
  | table d =>
    rw [addLog, Database.addLog, Database.writing] at h
    split at h
    · split at h
      · cases h
      · cases h
        exact .table d (LogRow.ofLog l) (LogRow.readFound_ofLog l)
    · cases h

end Store

namespace Retriever

theorem leads_expand {R : Base → Base → Prop} (hR : Oversees R) (e : Search.Expansion Float)
    (ms : List (Match Float)) : Leads R (expand e ms) := fun b => by
  obtain ⟨es, h | ⟨d, -, f, -, -, h⟩⟩ := runOn_expand e ms b
  · rw [h]
    exact hR.noting b es
  · rw [h]
    exact hR.noting b es

/-- A retrieval stays within what a search stays within. -/
theorem leads_retrieve {R : Base → Base → Prop} (hR : Oversees R) (rt : Retriever) (r : Request)
    (limit : Option Numeral) : Leads R (rt.retrieve r limit) := by
  refine Action.leads_bind hR.toFrame (leads_search hR rt r limit) fun ms => ?_
  split
  · exact leads_expand hR rt.expansion ms
  · exact Action.leads_pure hR.toFrame ms

theorem oversees_store : Oversees fun b c => c.store = b.store where
  refl _ := rfl
  trans h h' := h'.trans h
  noting _ _ := rfl
  asking _ _ := rfl
  tallying _ _ := rfl
  measuring _ _ := rfl

/-- Where chunks have ids of their own, a search gives matches of different chunks. -/
theorem nodup_search {b : Base} (hids : b.store.chunkIds.Nodup) (rt : Retriever) (r : Request) (limit : Option Numeral)
    {ms : List (Match Float)} (h : (runOn (rt.search r limit) b).1 = .ok ms) : (ms.map fun m => m.chunk.id).Nodup := by
  rw [search_outcome] at h
  split at h
  · cases h
  · obtain ⟨vector, -, h⟩ := bind_eq_ok.1 h
    obtain ⟨ks, hks, h⟩ := bind_eq_ok.1 h
    cases h
    apply Search.nodup_rank
    rw [List.map_map]
    exact Store.nodup_candidates hids hks

/-- What is retrieved comes from the documents of the matches, in the order of these. -/
theorem documentsOf_retrieve (rt : Retriever) (r : Request) (limit : Option Numeral) (b : Base)
    {ms : List (Match Float)} (h : (runOn (rt.retrieve r limit) b).1 = .ok ms) :
    ∃ hits, (runOn (rt.search r limit) b).1 = .ok hits ∧
      (b.store.chunkIds.Nodup → Search.documentsOf ms = Search.documentsOf hits) := by
  rw [retrieve_outcome] at h
  obtain ⟨hits, hhits, h⟩ := bind_eq_ok.1 h
  refine ⟨hits, hhits, fun hids => ?_⟩
  split at h
  · rw [expand_eq_ok h]
    exact Search.documentsOf_expand (nodup_search hids rt r limit hhits)
  · cases h
    rfl

end Retriever

/-- A log of the documents that a request found on an occasion. -/
structure RetrievalLog.Records (l : RetrievalLog) (r : Request) (o : Service.Occasion) (found : List String) :
    Prop where
  query : l.query = r.query
  riskType : l.riskType = r.riskType.getD ""
  conversation : l.conversation = o.conversation
  message : l.message = o.message
  found : l.found = found
  listed : l.foreign = none

namespace Service

/-- Keeping what was found adds one log, or fails and leaves the store as it is. -/
theorem runOn_logRetrieval (r : Request) (o : Occasion) (found : List String) (b : Base) :
    (∃ l c, runOn (Catalog.logRetrieval r.query found (r.riskType.getD "") o.conversation o.message) b =
      (.ok l, c) ∧ l.Records r o found ∧ Store.Logged l b.store c.store) ∨
    ∃ e c, runOn (Catalog.logRetrieval r.query found (r.riskType.getD "") o.conversation o.message) b =
      (.error e, c) ∧ c.store = b.store ∧ ∃ l, Store.addLog l b.store = .error e := by
  let l : RetrievalLog :=
    ⟨Action.idText (b.issued + 1), o.conversation, o.message, r.query, r.riskType.getD "", found,
    Time.ofUnixMicros b.clock, none⟩
  simp only [Catalog.logRetrieval, runOn_bind, Action.runOn_newId, Action.runOn_now, Action.runOn_writeStore]
  cases hadd : Store.addLog l b.store with
  | ok s =>
    have hlogged : Store.Logged l b.store s := Store.logged_of_addLog hadd
    exact .inl ⟨l, { b with issued := b.issued + 1, store := s }, rfl, ⟨rfl, rfl, rfl, rfl, rfl, rfl⟩, hlogged⟩
  | error e => exact .inr ⟨e, { b with issued := b.issued + 1 }, rfl, rfl, l, hadd⟩

/-- A search that fails leaves the store as it was. One that does not fail leaves the documents and their chunks, and
adds one log if it found anything. The log names the documents found, each once and in the order in which they first
appear; these are the documents that the search finds without context, whatever context is added. -/
theorem search_logs_documents (s : Service) (r : Request) (o : Occasion) (b : Base) :
    match runOn (s.search r o) b with
    | (.error _, c) => c.store = b.store
    | (.ok ms, c) =>
      (∃ hits, (runOn (s.retriever.search r o.limit) b).1 = .ok hits ∧
        (b.store.chunkIds.Nodup → Search.documentsOf ms = Search.documentsOf hits)) ∧
      if ms.isEmpty then c.store = b.store
      else ∃ l, l.Records r o (Search.documentsOf ms) ∧ Store.Logged l b.store c.store := by
  have hstore := Retriever.leads_retrieve Retriever.oversees_store s.retriever r o.limit b
  have hdocuments := fun ms (h : (runOn (s.retriever.retrieve r o.limit) b).1 = .ok ms) =>
    s.retriever.documentsOf_retrieve r o.limit b h
  rw [search, runOn_bind]
  generalize runOn (s.retriever.retrieve r o.limit) b = retrieved at hstore hdocuments
  obtain ⟨outcome, c⟩ := retrieved
  dsimp only at hstore hdocuments
  cases outcome with
  | error e => exact hstore
  | ok ms =>
    have hdocuments := hdocuments ms rfl
    dsimp only
    cases hempty : ms.isEmpty with
    | true => exact ⟨hdocuments, by simpa [hempty] using hstore⟩
    | false =>
      rw [Bool.not_false, if_pos rfl, Report.foundDocuments_eq, runOn_bind]
      rcases runOn_logRetrieval r o (Search.documentsOf ms) c with
        ⟨l, c', hlog, hrecords, hlogged⟩ | ⟨e, c', hlog, hsame, -⟩
      · rw [hlog]
        rw [hstore] at hlogged
        refine ⟨hdocuments, ?_⟩
        rw [hempty, if_neg Bool.false_ne_true]
        exact ⟨l, hrecords, hlogged⟩
      · rw [hlog]
        exact hsame.trans hstore

def unit : Embedding := [⟨1065353216⟩]

/-- Two documents, each with a chunk whose vector every query has as well. -/
def answering : Base where
  store := .memory
    { documents := [
        ("a", ⟨"a", "X", "a", "", "a.md", none, none⟩),
        ("b", ⟨"b", "X", "b", "", "b.md", none, none⟩)]
      chunks := [
        ("a", [⟨"a-0", "a", 0, "", none, none⟩, ⟨"a-1", "a", 1, "", some unit, none⟩,
          ⟨"a-2", "a", 2, "", none, none⟩]),
        ("b", [⟨"b-0", "b", 0, "", some unit, none⟩, ⟨"b-1", "b", 1, "", none, none⟩])] }
  provider := fun _ _ => .vector unit

def asking : Request := ⟨"t", none, none, none⟩

theorem retrieve_answering (rt : Retriever) : ∃ ms, (runOn (rt.retrieve asking) answering).1 = .ok ms := by
  have hsearch : ∃ hits, (runOn (rt.search asking) answering).1 = .ok hits := by
    rw [Retriever.search_outcome, if_neg (by decide)]
    exact ⟨_, rfl⟩
  obtain ⟨hits, hhits⟩ := hsearch
  have hlisting := rt.search_listing asking none answering
  rw [Retriever.retrieve_outcome, hhits, ok_bind]
  split
  · refine ⟨_, Retriever.expand_ok _ fun d _ f hf => ?_⟩
    rw [hlisting] at hf
    cases hf
  · exact ⟨hits, rfl⟩

theorem search_answering (s : Service) : ∃ ms c, runOn (s.search asking) answering = (.ok ms, c) := by
  obtain ⟨ms, hms⟩ := retrieve_answering s.retriever
  have hstore := Retriever.leads_retrieve Retriever.oversees_store s.retriever asking none answering
  rw [search, runOn_bind]
  generalize runOn (s.retriever.retrieve asking) answering = retrieved at hms hstore
  obtain ⟨outcome, c⟩ := retrieved
  obtain rfl : outcome = .ok ms := hms
  dsimp only
  split
  · rcases runOn_logRetrieval asking {} (Report.foundDocuments ms) c with
      ⟨l, c', hlog, -⟩ | ⟨e, c', -, -, l, hadd⟩
    · rw [runOn_bind, hlog]
      exact ⟨ms, c', rfl⟩
    · rw [show c.store = answering.store from hstore] at hadd
      cases hadd
  · exact ⟨ms, c, rfl⟩

/-- Both documents are found by their similar chunks. -/
theorem hits_answering {hits : List (Match Float)}
    (h : (runOn (Retriever.search {} asking) answering).1 = .ok hits) : Search.documentsOf hits = ["a", "b"] := by
  rw [Retriever.search_outcome, if_neg (by decide)] at h
  obtain rfl := Except.ok.inj h
  rw [Search.rank, Search.scoredOf, Search.bySimilarity, List.mergeSort_of_pairwise (by decide +kernel)]
  decide +kernel

/-- Both documents are found, and a log of them is added. -/
theorem search_logs_documents_answering :
    let s : Service := { root := Path.ofText "kb" }
    answering.store.chunkIds.Nodup ∧
      ∃ ms c l, runOn (s.search asking) answering = (.ok ms, c) ∧ Search.documentsOf ms = ["a", "b"] ∧
        l.Records asking {} ["a", "b"] ∧ Store.Logged l answering.store c.store := by
  intro s
  have hids : answering.store.chunkIds.Nodup := by decide +kernel
  obtain ⟨ms, c, hrun⟩ := search_answering s
  have h := search_logs_documents s asking {} answering
  rw [hrun] at h
  obtain ⟨⟨hits, hhits, hsame⟩, hlog⟩ := h
  have hfound : Search.documentsOf ms = ["a", "b"] := (hsame hids).trans (hits_answering hhits)
  have hsome : ms.isEmpty = false := by
    cases ms with
    | nil => cases hfound
    | cons m ms => rfl
  rw [hsome, if_neg Bool.false_ne_true, hfound] at hlog
  obtain ⟨l, hrecords, hlogged⟩ := hlog
  exact ⟨hids, ms, c, l, hrun, hfound, hrecords, hlogged⟩

end Service

end Compendium
