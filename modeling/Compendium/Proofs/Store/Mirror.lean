import Mathlib.Data.List.Find
import Mathlib.Data.List.Nodup
import Mathlib.Data.List.Perm.Basic
import Compendium.Proofs.Json.RoundTrip
import Compendium.Proofs.Store.Holdings
import Compendium.Proofs.Time.Iso

/-!
A database that holds the rows of what a store in memory holds. The documents and the logs come in the same
order in both; the chunks of a database may come in any order, since a document that is indexed anew leaves its
place in memory but not in a table.
-/
namespace Compendium

/-- A time that is there and stands for a day and an hour. -/
def Time.Known (t : Option Time) : Prop := ∃ s, t = some s ∧ s.isValid = true

structure Document.Dated (d : Document) : Prop where
  created : Time.Known d.created
  updated : Time.Known d.updated

structure Chunk.Storable (c : Chunk) : Prop where
  vector : c.vector.isSome
  created : Time.Known c.created

structure RetrievalLog.Storable (l : RetrievalLog) : Prop where
  valid : l.created.isValid = true
  universal : l.created.offset = some 0
  listed : l.foreign = none

/-! Single rows: what is read back is what was written, but for offsets of less than a second. -/

def Document.row (d : Document) : DocumentRow :=
  ⟨d.id, d.category, d.title, d.path, d.content, d.created.map Time.iso, d.updated.map Time.iso⟩

def Chunk.row (c : Chunk) : ChunkRow :=
  ⟨c.id, c.document, c.index, c.text, (c.vector.getD []).toBytes, c.created.map Time.iso⟩

def Document.kept (d : Document) : Document :=
  { d with created := d.created.map Time.kept, updated := d.updated.map Time.kept }

def Chunk.kept (c : Chunk) : Chunk := { c with created := c.created.map Time.kept }

def RetrievalLog.kept (l : RetrievalLog) : RetrievalLog := { l with created := l.created.kept }

/-- A document whose times come back as they are. -/
structure Document.Lasting (d : Document) : Prop extends d.Dated where
  kept : d.kept = d

structure Chunk.Lasting (c : Chunk) : Prop extends c.Storable where
  kept : c.kept = c

theorem iso_nonempty {t : Time} (h : t.isValid = true) : t.iso.isEmpty = false := by
  cases he : t.iso.isEmpty with
  | false => rfl
  | true =>
    have hr := Time.ofIso?_iso h
    rw [String.isEmpty_iff.1 he] at hr
    exact absurd hr nofun

theorem storedTime_iso {t : Time} (h : t.isValid = true) : (storedTime (some t.iso)).outcome = .ok (some t.kept) := by
  rw [storedTime, iso_nonempty h, Time.ofIso?_iso h]
  rfl

theorem storedTime_known {t : Option Time} (h : Time.Known t) :
    (storedTime (t.map Time.iso)).outcome = .ok (t.map Time.kept) := by
  obtain ⟨s, rfl, hs⟩ := h
  exact storedTime_iso hs

theorem Document.Dated.row_eq {d : Document} (h : d.Dated) (now : Time) : DocumentRow.ofDocument now d = d.row := by
  obtain ⟨⟨s, hs, _⟩, ⟨u, hu, _⟩⟩ := h
  simp [DocumentRow.ofDocument, row, hs, hu]

theorem Document.Dated.read_row {d : Document} (h : d.Dated) : d.row.read.outcome = .ok d.kept := by
  have hc : (storedTime d.row.created).outcome = .ok (d.created.map Time.kept) := storedTime_known h.created
  have hu : (storedTime d.row.updated).outcome = .ok (d.updated.map Time.kept) := storedTime_known h.updated
  obtain ⟨u, he, _⟩ := h.updated
  have hor : (d.updated.map Time.kept <|> d.created.map Time.kept) = d.updated.map Time.kept := by rw [he]; rfl
  simp only [DocumentRow.read, Reading.outcome_bind, hc, hu]
  change Except.ok { d.kept with updated := d.updated.map Time.kept <|> d.created.map Time.kept } = _
  rw [hor]
  rfl

theorem Document.Lasting.read_row {d : Document} (h : d.Lasting) : d.row.read.outcome = .ok d := by
  rw [h.toDated.read_row, h.kept]

theorem Chunk.Storable.row_eq {c : Chunk} (h : c.Storable) (now : Time) :
    ChunkRow.ofChunk now c.document c = .ok c.row := by
  obtain ⟨v, hv⟩ := Option.isSome_iff_exists.1 h.vector
  obtain ⟨s, hs, _⟩ := h.created
  simp [ChunkRow.ofChunk, row, hv, hs]

theorem Chunk.Storable.read_row {c : Chunk} (h : c.Storable) : c.row.read.outcome = .ok c.kept := by
  obtain ⟨v, hv⟩ := Option.isSome_iff_exists.1 h.vector
  have hb : (storedVector c.row.vector).outcome = .ok v := by
    simp [storedVector, Embedding.ofBytes?, row, hv, Embedding.toBytes, Number.Single.decode?_encode]
  have hc : (storedTime c.row.created).outcome = .ok (c.created.map Time.kept) := storedTime_known h.created
  simp only [ChunkRow.read, Reading.outcome_bind, hb, hc]
  change Except.ok { c.kept with vector := some v } = _
  rw [← hv]
  rfl

theorem Chunk.Lasting.read_row {c : Chunk} (h : c.Lasting) : c.row.read.outcome = .ok c := by
  rw [h.toStorable.read_row, h.kept]

theorem print_texts_nonempty (xs : List String) :
    (Json.print Json.spaced (.list (xs.map .text))).isEmpty = false := by
  cases he : (Json.print Json.spaced (.list (xs.map .text))).isEmpty with
  | false => rfl
  | true =>
    have hr := Json.parse?_print_texts xs
    rw [String.isEmpty_iff.1 he] at hr
    exact absurd hr nofun

theorem mapM_text (xs : List String) : (xs.map Json.text).mapM Json.text? = some xs := by
  induction xs with
  | nil => rfl
  | cons x xs ih => rw [List.map_cons, List.mapM_cons, ih]; rfl

/-- A log that is written as a row gives back what was found. -/
theorem LogRow.readFound_ofLog (l : RetrievalLog) : (LogRow.ofLog l).readFound.outcome = .ok (l.found, none) := by
  have hm : ((Json.list (l.found.map .text)).list?.bind (·.mapM Json.text?)) = some l.found := mapM_text l.found
  simp only [LogRow.readFound, LogRow.ofLog, print_texts_nonempty, Json.parse?_print_texts, hm]
  rfl

theorem LogRow.read_ofLog {l : RetrievalLog} (hv : l.created.isValid = true) (hl : l.foreign = none) (now : Time) :
    ((LogRow.ofLog l).read now).outcome = .ok l.kept := by
  have hf := LogRow.readFound_ofLog l
  have hc : (storedTime (some (LogRow.ofLog l).created)).outcome = .ok (some l.created.kept) := storedTime_iso hv
  simp only [LogRow.read, Reading.outcome_bind, hf, hc]
  change Except.ok { l.kept with foreign := none } = _
  rw [← hl]
  rfl

theorem RetrievalLog.Storable.read_row {l : RetrievalLog} (h : l.Storable) (now : Time) :
    ((LogRow.ofLog l).read now).outcome = .ok l := by
  have hk : l.created.kept = l.created := by simp [Time.kept_eq_self_iff, h.universal]
  rw [LogRow.read_ofLog h.valid h.listed, RetrievalLog.kept, hk]

/-- What each row of a line is read back as, the line is read back as. -/
theorem each_rows {α β γ : Type} {read : α → Reading γ} {row : β → α} {back : β → γ} {xs : List β}
    (h : ∀ x ∈ xs, (read (row x)).outcome = .ok (back x)) :
    (Reading.each read (xs.map row)).outcome = .ok (xs.map back) := by
  induction xs with
  | nil => rfl
  | cons x xs ih =>
    have hr := ih fun y hy => h y (List.mem_cons_of_mem x hy)
    simp only [List.map_cons, Reading.each, Reading.outcome_bind, h x List.mem_cons_self, hr]
    rfl

/-- When each row is read back as what it was written from, so are rows in a line. -/
theorem each_row {α β : Type} {read : α → Reading β} {row : β → α} {xs : List β}
    (h : ∀ x ∈ xs, (read (row x)).outcome = .ok x) : (Reading.each read (xs.map row)).outcome = .ok xs := by
  have hrows : (Reading.each read (xs.map row)).outcome = .ok (xs.map id) := each_rows h
  rwa [List.map_id] at hrows

/-! Chunks in the order of their indexes. -/

namespace Memory

theorem byIndex_pairwise (cs : List Chunk) : (byIndex cs).Pairwise fun a b => a.index ≤ b.index := by
  have hs : (byIndex cs).Pairwise fun a b => decide (a.index ≤ b.index) = true :=
    List.pairwise_mergeSort (fun a b c hab hbc => by simp only [decide_eq_true_eq] at *; omega)
      (fun a b => by simp; omega) cs
  exact hs.imp of_decide_eq_true

theorem byIndex_strict {cs : List Chunk} (hn : (cs.map Chunk.index).Nodup) :
    (byIndex cs).Pairwise fun a b => a.index < b.index := by
  have hp : ((byIndex cs).map Chunk.index).Nodup := ((List.mergeSort_perm cs _).map Chunk.index).nodup_iff.2 hn
  exact ((byIndex_pairwise cs).and (List.pairwise_map.1 hp)).imp fun h => Int.lt_iff_le_and_ne.2 h

/-- Chunks whose indexes rise are what sorting any rearrangement of them gives. -/
theorem byIndex_eq {cs ds : List Chunk} (hp : cs.Perm ds) (hs : ds.Pairwise fun a b => a.index < b.index) :
    byIndex cs = ds := by
  have hperm : (byIndex cs).Perm ds := (List.mergeSort_perm _ _).trans hp
  have hn : (ds.map Chunk.index).Nodup := List.pairwise_map.2 (hs.imp fun h => Int.ne_of_lt h)
  refine hperm.eq_of_pairwise (fun a b ha hb hab hba => ?_) (byIndex_pairwise cs) (hs.imp fun h => Int.le_of_lt h)
  exact List.inj_on_of_nodup_map hn (hperm.mem_iff.1 ha) hb (Int.le_antisymm hab hba)

end Memory

/-! The two states side by side. -/

/-- What holds of a memory whose callers keep their promises: documents lie under their own ids, chunks under the
id of a document that is there, in the order of their indexes, and the ids of logs differ. -/
structure Memory.Neat (m : Memory) : Prop where
  ids : ∀ e ∈ m.documents, e.2.id = e.1
  once : (Keyed.keys m.documents).Nodup
  dated : ∀ e ∈ m.documents, e.2.Lasting
  owners : (Keyed.keys m.chunks).Nodup
  owned : ∀ e ∈ m.chunks, e.1 ∈ Keyed.keys m.documents
  filled : ∀ e ∈ m.chunks, e.2 ≠ []
  own : ∀ e ∈ m.chunks, ∀ c ∈ e.2, c.document = e.1 ∧ c.Lasting
  ordered : ∀ e ∈ m.chunks, e.2.Pairwise fun a b => a.index < b.index
  logIds : (m.logs.map RetrievalLog.id).Nodup
  logs : ∀ l ∈ m.logs, l.Storable

/-- The tables of an open database hold the rows of a memory; those of chunks may stand in another order. -/
structure Mirrors (m : Memory) (d : Database) : Prop extends m.Neat where
  isOpen : d.isOpen = true
  documentRows : d.tables.documents = m.documents.map fun e => e.2.row
  chunkRows : ∃ cs : List Chunk, cs.Perm (m.chunks.flatMap fun e => e.2) ∧ d.tables.chunks = cs.map Chunk.row
  logRows : d.tables.logs = m.logs.map LogRow.ofLog

theorem mirrors_empty (path : String) : Mirrors {} ⟨path, true, {}⟩ where
  ids := nofun
  once := List.nodup_nil
  dated := nofun
  owners := List.nodup_nil
  owned := nofun
  filled := nofun
  own := nofun
  ordered := nofun
  logIds := List.nodup_nil
  logs := nofun
  isOpen := rfl
  documentRows := rfl
  chunkRows := ⟨[], .refl _, rfl⟩
  logRows := rfl

namespace Mirrors

variable {m : Memory} {d : Database}

theorem reading_eq (h : Mirrors m d) {α : Type} (r : Reading α) : d.reading r = r := by
  simp [Database.reading, h.isOpen]

theorem writing_eq (h : Mirrors m d) (r : Except Fault Tables) :
    d.writing r = r.map fun t => { d with tables := t } := by
  simp [Database.writing, h.isOpen]

theorem hasDocument_eq (h : Mirrors m d) (id : String) : d.tables.hasDocument id = Keyed.has id m.documents := by
  rw [Tables.hasDocument, Keyed.has, h.documentRows, List.any_map, Bool.eq_iff_iff, List.any_eq_true, List.any_eq_true]
  refine exists_congr fun e => and_congr_right fun he => ?_
  simp [Document.row, h.ids e he]

/-- The row of a document is found by the document's key. -/
theorem find_document (h : Mirrors m d) (id : String) :
    (d.tables.documents.find? fun r => r.id = id) = (Keyed.get? id m.documents).map Document.row := by
  rw [h.documentRows, List.find?_map, Keyed.get?, Option.map_map]
  have hp : m.documents.find? ((fun r : DocumentRow => decide (r.id = id)) ∘ fun e => e.2.row) =
      m.documents.find? fun e => e.1 = id := List.find?_congr fun e he => by simp [Document.row, h.ids e he]
  rw [hp]
  rfl

/-! Reading. -/

theorem document_eq (h : Mirrors m d) (id : String) : (d.document id).outcome = m.document id := by
  rw [Database.document, h.reading_eq, h.find_document, Memory.document]
  cases hd : Keyed.get? id m.documents with
  | none => rfl
  | some doc => exact (h.dated _ (Keyed.mem_of_get?_eq_some hd)).read_row

theorem atPath_eq (h : Mirrors m d) (path : String) : (d.atPath? path).outcome = .ok (m.atPath? path) := by
  have hrow : (d.tables.documents.find? fun r => r.path = path) = (m.atPath? path).map Document.row := by
    rw [h.documentRows, List.find?_map, Memory.atPath?, List.find?_map, Option.map_map]
    rfl
  rw [Database.atPath?, h.reading_eq, hrow]
  cases hf : m.atPath? path with
  | none => rfl
  | some doc =>
    obtain ⟨e, he, rfl⟩ := List.mem_map.1 (List.mem_of_find?_eq_some hf)
    simp only [Option.map_some, Reading.outcome_map, (h.dated e he).read_row]
    rfl

theorem ids_perm (h : Mirrors m d) : ∃ ids, d.ids.outcome = .ok ids ∧ ids.Perm m.ids := by
  refine ⟨_, by rw [Database.ids, h.reading_eq]; rfl, (List.mergeSort_perm _ _).trans (.of_eq ?_)⟩
  rw [h.documentRows, List.map_map]
  exact List.map_congr_left h.ids

theorem sort_rows (xs : List Document) :
    sortByTexts DocumentRow.category DocumentRow.title (xs.map Document.row) =
      (sortByTexts Document.category Document.title xs).map Document.row :=
  (List.map_mergeSort (f := Document.row) fun _ _ _ _ => rfl).symm

theorem documentsOf_eq (h : Mirrors m d) (category : Option String) :
    (d.documentsOf category).outcome = .ok (m.documentsOf category) := by
  have hd : d.tables.documents = (m.documents.map (·.2)).map Document.row := by
    rw [h.documentRows, List.map_map]
    rfl
  have hread : ∀ doc ∈ m.documentsOf category, doc.row.read.outcome = .ok doc := fun doc hdoc => by
    obtain ⟨e, he, rfl⟩ := List.mem_map.1 (List.mem_of_mem_filter (List.mem_mergeSort.1 hdoc))
    exact (h.dated e he).read_row
  rw [Database.documentsOf, h.reading_eq, hd, List.filter_map, sort_rows]
  exact each_row hread

theorem categories_eq (h : Mirrors m d) : d.categories.outcome = .ok m.categories := by
  rw [Database.categories, h.reading_eq, h.documentRows, List.map_map]
  rfl

theorem documentCount_eq (h : Mirrors m d) : d.documentCount.outcome = .ok m.documents.length := by
  rw [Database.documentCount, h.reading_eq, h.documentRows, List.length_map]
  rfl

/-! Reading chunks. -/

/-- The chunks under one key are those that name it as their document. -/
theorem filter_owned {chunks : List (String × List Chunk)} (hn : (Keyed.keys chunks).Nodup)
    (ho : ∀ e ∈ chunks, ∀ c ∈ e.2, c.document = e.1) (id : String) :
    (chunks.flatMap fun e => e.2).filter (fun c => c.document = id) = (Keyed.get? id chunks).getD [] := by
  induction chunks with
  | nil => rfl
  | cons e r ih =>
    obtain ⟨k, cs⟩ := e
    rw [Keyed.keys, List.map_cons, List.nodup_cons] at hn
    have hcs : ∀ c ∈ cs, c.document = k := ho (k, cs) List.mem_cons_self
    have hr := ih hn.2 fun e he => ho e (List.mem_cons_of_mem _ he)
    rw [List.flatMap_cons, List.filter_append, hr, Keyed.get?_cons]
    by_cases hk : k = id
    · have hnone : Keyed.get? id r = none := Keyed.get?_eq_none_iff.2 (hk ▸ hn.1)
      rw [if_pos hk, hnone, List.filter_eq_self.2 fun c hc => by simp [hcs c hc, hk]]
      simp
    · rw [if_neg hk, List.filter_eq_nil_iff.2 fun c hc => by simp [hcs c hc, hk], List.nil_append]

/-- The chunks that name another document are those under the other keys. -/
theorem filter_others {chunks : List (String × List Chunk)} (ho : ∀ e ∈ chunks, ∀ c ∈ e.2, c.document = e.1)
    (id : String) :
    (chunks.flatMap fun e => e.2).filter (fun c => c.document != id) =
      (Keyed.erase id chunks).flatMap fun e => e.2 := by
  induction chunks with
  | nil => rfl
  | cons e r ih =>
    obtain ⟨k, cs⟩ := e
    have hcs : ∀ c ∈ cs, c.document = k := ho (k, cs) List.mem_cons_self
    have hr := ih fun e he => ho e (List.mem_cons_of_mem _ he)
    rw [List.flatMap_cons, List.filter_append, hr]
    by_cases hk : k = id
    · subst hk
      rw [Keyed.erase_cons_self, List.filter_eq_nil_iff.2 fun c hc => by simp [hcs c hc], List.nil_append]
    · rw [Keyed.erase_cons_of_ne r hk, List.filter_eq_self.2 fun c hc => by simp [hcs c hc, hk], List.flatMap_cons]

theorem sort_chunkRows (cs : List Chunk) :
    ((cs.map Chunk.row).mergeSort fun a b => a.index ≤ b.index) = (Memory.byIndex cs).map Chunk.row :=
  (List.map_mergeSort (f := Chunk.row) fun _ _ _ _ => rfl).symm

theorem chunksOf_pairwise (h : Mirrors m d) (id : String) :
    (m.chunksOf id).Pairwise fun a b => a.index < b.index := by
  rw [Memory.chunksOf]
  cases hg : Keyed.get? id m.chunks with
  | none => exact .nil
  | some cs => exact h.ordered _ (Keyed.mem_of_get?_eq_some hg)

theorem lasting_of_mem (h : Mirrors m d) {c : Chunk} (hc : c ∈ m.chunks.flatMap fun e => e.2) : c.Lasting := by
  obtain ⟨e, he, hce⟩ := List.mem_flatMap.1 hc
  exact (h.own e he c hce).2

theorem filter_chunks (h : Mirrors m d) (id : String) :
    (m.chunks.flatMap fun e => e.2).filter (fun c => c.document = id) = m.chunksOf id :=
  filter_owned h.owners (fun e he c hc => (h.own e he c hc).1) id

theorem chunksOf_eq (h : Mirrors m d) (id : String) : (d.chunksOf id).outcome = .ok (m.chunksOf id) := by
  obtain ⟨cs, hp, hrows⟩ := h.chunkRows
  have hf : d.tables.chunks.filter (fun r => r.document = id) = (cs.filter fun c => c.document = id).map Chunk.row := by
    rw [hrows, List.filter_map]
    rfl
  have hown : (cs.filter fun c => c.document = id).Perm (m.chunksOf id) := h.filter_chunks id ▸ hp.filter _
  rw [Database.chunksOf, h.reading_eq, hf, sort_chunkRows, Memory.byIndex_eq hown (h.chunksOf_pairwise id)]
  refine each_row fun c hc => (h.lasting_of_mem ?_).read_row
  exact List.mem_of_mem_filter (h.filter_chunks id ▸ hc)

theorem chunkCount_eq (h : Mirrors m d) : d.chunkCount.outcome = .ok m.chunkCount := by
  obtain ⟨cs, hp, hrows⟩ := h.chunkRows
  rw [Database.chunkCount, h.reading_eq, hrows, List.length_map, hp.length_eq]
  rfl

theorem indexedCount_eq (h : Mirrors m d) : d.indexedCount.outcome = .ok m.indexedCount := by
  obtain ⟨cs, hp, hrows⟩ := h.chunkRows
  have hkeys : (distinctTexts (d.tables.chunks.map (·.document))).Perm (Keyed.keys m.chunks) := by
    refine (List.perm_ext_iff_of_nodup (nodup_distinctTexts _) h.owners).2 fun id => ?_
    rw [mem_distinctTexts, hrows, List.map_map, Keyed.keys, List.mem_map, List.mem_map]
    constructor
    · rintro ⟨c, hc, rfl⟩
      obtain ⟨e, he, hce⟩ := List.mem_flatMap.1 (hp.mem_iff.1 hc)
      exact ⟨e, he, (h.own e he c hce).1.symm⟩
    · rintro ⟨e, he, rfl⟩
      obtain ⟨c, hc⟩ := List.exists_mem_of_ne_nil _ (h.filled e he)
      exact ⟨c, hp.mem_iff.2 (List.mem_flatMap.2 ⟨e, he, hc⟩), (h.own e he c hc).1⟩
  have hfull : (m.chunks.filter fun e => !e.2.isEmpty) = m.chunks :=
    List.filter_eq_self.2 fun e he => by simpa using h.filled e he
  rw [Database.indexedCount, h.reading_eq, hkeys.length_eq, Memory.indexedCount, hfull, Keyed.keys, List.length_map]
  rfl

def candidate? (m : Memory) (category : Option String) (c : Chunk) : Option Candidate :=
  ((Keyed.get? c.document m.documents).filter fun doc => matchesCategory category doc.category).map fun doc =>
    ⟨c, doc.header⟩

def candidateRow (k : Candidate) : ChunkRow × Header := ⟨k.chunk.row, k.header⟩

theorem candidates_memory (h : Mirrors m d) (category : Option String) :
    m.candidates category = (m.chunks.flatMap fun e => e.2).filterMap (candidate? m category) := by
  rw [Memory.candidates, List.filterMap_flatMap]
  refine List.flatMap_congr fun e he => ?_
  have hc : ∀ c ∈ e.2, candidate? m category c =
      ((Keyed.get? e.1 m.documents).filter fun doc => matchesCategory category doc.category).map fun doc =>
        ⟨c, doc.header⟩ := fun c hc => by rw [candidate?, (h.own e he c hc).1]
  rw [List.filterMap_congr hc]
  cases hd : Keyed.get? e.1 m.documents with
  | none => simp
  | some doc =>
    by_cases hm : matchesCategory category doc.category = true <;> simp [Option.filter, hm]

theorem headerOf_row (h : Mirrors m d) (c : Chunk) :
    d.tables.headerOf? c.row = (Keyed.get? c.document m.documents).map Document.header := by
  have hf := h.find_document c.document
  rw [Tables.headerOf?, show c.row.document = c.document from rfl, hf, Option.map_map]
  refine Option.map_congr fun doc hdoc => ?_
  have hid : doc.id = c.document := h.ids _ (Keyed.mem_of_get?_eq_some hdoc)
  simp [Document.header, Document.row, hid]

/-- The database finds the candidates that memory finds, in an order of its own. -/
theorem candidates_perm (h : Mirrors m d) (category : Option String) :
    ∃ ks, (d.candidates category).outcome = .ok ks ∧ ks.Perm (m.candidates category) := by
  obtain ⟨cs, hp, hrows⟩ := h.chunkRows
  have hwanted : ((d.tables.chunks.filterMap fun c => (d.tables.headerOf? c).map fun x => (c, x)).filter fun e =>
      matchesCategory category e.2.category) = (cs.filterMap (candidate? m category)).map candidateRow := by
    rw [hrows, List.filterMap_map, List.filter_filterMap, List.map_filterMap]
    refine List.filterMap_congr fun c _ => ?_
    rw [Function.comp_apply, h.headerOf_row, candidate?]
    cases hd : Keyed.get? c.document m.documents with
    | none => rfl
    | some doc =>
      by_cases hm : matchesCategory category doc.category = true <;>
        simp [Option.filter, hm, Document.header, candidateRow]
  have hperm : (cs.filterMap (candidate? m category)).Perm (m.candidates category) :=
    h.candidates_memory category ▸ hp.filterMap _
  -- Memory lists the candidates of one document after those of another, a database sorts them all.
  let sorted := (cs.filterMap (candidate? m category)).mergeSort fun a b =>
    a.chunk.document < b.chunk.document || (a.chunk.document = b.chunk.document && a.chunk.index ≤ b.chunk.index)
  have hsort : Tables.inOrder ((cs.filterMap (candidate? m category)).map candidateRow) = sorted.map candidateRow :=
    (List.map_mergeSort (f := candidateRow) fun _ _ _ _ => rfl).symm
  have hread : ∀ k ∈ sorted,
      (do return (⟨← (candidateRow k).1.read, (candidateRow k).2⟩ : Candidate)).outcome = .ok k := fun k hk => by
    obtain ⟨c, hc, hck⟩ := List.mem_filterMap.1 (List.mem_mergeSort.1 hk)
    obtain ⟨doc, -, rfl⟩ := Option.map_eq_some_iff.1 hck
    have hr := (h.lasting_of_mem (hp.mem_iff.1 hc)).read_row
    simp only [Reading.outcome_bind, candidateRow, hr]
    rfl
  refine ⟨sorted, ?_, (List.mergeSort_perm _ _).trans hperm⟩
  rw [Database.candidates, h.reading_eq, hwanted, hsort]
  exact each_row hread

/-! Reading logs. -/

/-- Sorting the rows by their texts is sorting the logs by their times. -/
theorem sort_logRows {ls : List RetrievalLog} (h : ∀ l ∈ ls, l.Storable) :
    ((ls.map LogRow.ofLog).mergeSort fun a b => !(a.created < b.created)) =
      (Memory.newestFirst ls).map LogRow.ofLog := by
  refine (List.map_mergeSort (f := LogRow.ofLog) fun a ha b hb => ?_).symm
  have hiff := Time.iso_lt_iff_micros (h a ha).valid (h b hb).valid (h a ha).universal (h b hb).universal
  rw [show (LogRow.ofLog a).created = a.created.iso from rfl, show (LogRow.ofLog b).created = b.created.iso from rfl,
    decide_eq_decide.2 hiff, ← decide_not, decide_eq_decide]
  omega

theorem inOneOrder_of_storable {ls : List RetrievalLog} (h : ∀ l ∈ ls, l.Storable) :
    Memory.inOneOrder ls = true := by
  cases ls with
  | nil => rfl
  | cons l r =>
    refine List.all_eq_true.2 fun k hk => ?_
    simp [Time.comparable, (h l List.mem_cons_self).universal, (h k (List.mem_cons_of_mem l hk)).universal]

/-- Logs that can be stored are listed from memory newest first. -/
theorem logsOf_memory {m : Memory} (h : ∀ l ∈ m.logs, l.Storable) (conversation message : String) {limit : Int}
    (hl : 0 ≤ limit) :
    m.logsOf conversation message limit =
      .ok ((Memory.newestFirst (m.logs.filter (RetrievalLog.belongsTo conversation message))).take limit.toNat) := by
  have hs : ∀ l ∈ m.logs.filter (RetrievalLog.belongsTo conversation message), l.Storable :=
    fun l hl => h l (List.mem_of_mem_filter hl)
  rw [Memory.logsOf, inOneOrder_of_storable hs, if_pos rfl, upTo_eq_take hl]

/-- Logs that can be stored are listed from their rows newest first, since the text of a time is in the order of the
times. -/
theorem logsOf_rows {ls : List RetrievalLog} (hopen : d.isOpen = true) (hrows : d.tables.logs = ls.map LogRow.ofLog)
    (h : ∀ l ∈ ls, l.Storable) (now : Time) (conversation message : String) {limit : Int} (hl : 0 ≤ limit)
    (hf : fitsColumn limit = true) :
    (d.logsOf now conversation message limit).outcome =
      .ok ((Memory.newestFirst (ls.filter (RetrievalLog.belongsTo conversation message))).take limit.toNat) := by
  have hs : ∀ l ∈ ls.filter (RetrievalLog.belongsTo conversation message), l.Storable :=
    fun l hl => h l (List.mem_of_mem_filter hl)
  have hw : d.tables.logs.filter (Database.belongs conversation message) =
      (ls.filter (RetrievalLog.belongsTo conversation message)).map LogRow.ofLog := by
    rw [hrows, List.filter_map]
    rfl
  rw [Database.logsOf, Database.reading, if_pos hopen, hw, sort_logRows hs, if_pos hf, Database.limited,
    if_neg (by omega), ← List.map_take]
  refine each_row fun l hl => RetrievalLog.Storable.read_row ?_ now
  exact hs l (List.mem_mergeSort.1 (List.mem_of_mem_take hl))

/-- Both stores list the same logs. -/
theorem logsOf_eq (h : Mirrors m d) (now : Time) (conversation message : String) {limit : Int} (hl : 0 ≤ limit)
    (hf : fitsColumn limit = true) :
    (d.logsOf now conversation message limit).outcome = m.logsOf conversation message limit := by
  rw [logsOf_rows h.isOpen h.logRows h.logs now conversation message hl hf,
    logsOf_memory h.logs conversation message hl]

end Mirrors

/-! Changing both. -/

/-- The two outcomes of one change: both are refused for the same reason, or the new states mirror each other. -/
inductive Alike : Except Fault Memory → Except Fault Database → Prop where
  | changed {m : Memory} {d : Database} (h : Mirrors m d) : Alike (.ok m) (.ok d)
  | refused (e : Fault) : Alike (.error e) (.error e)

namespace Memory.Neat

variable {m : Memory}

theorem put (h : m.Neat) {doc : Document} (hd : doc.Lasting) : (m.put doc).Neat :=
  { h with
    ids := Keyed.forall_mem_put rfl h.ids
    once := Keyed.nodup_keys_put h.once
    dated := Keyed.forall_mem_put hd h.dated
    owned := fun e he => Keyed.mem_keys_put_iff.2 (.inr (h.owned e he)) }

theorem deleteChunks (h : m.Neat) (id : String) : (m.deleteChunks id).Neat :=
  { h with
    owners := Keyed.nodup_keys_erase h.owners
    owned := fun e he => h.owned e (List.mem_of_mem_filter he)
    filled := fun e he => h.filled e (List.mem_of_mem_filter he)
    own := fun e he => h.own e (List.mem_of_mem_filter he)
    ordered := fun e he => h.ordered e (List.mem_of_mem_filter he) }

/-- Leaving out a document is fine once its chunks are gone. -/
theorem dropDocument (h : m.Neat) {id : String} (hc : id ∉ Keyed.keys m.chunks) :
    ({ m with documents := Keyed.erase id m.documents } : Memory).Neat :=
  { h with
    ids := fun e he => h.ids e (List.mem_of_mem_filter he)
    once := Keyed.nodup_keys_erase h.once
    dated := fun e he => h.dated e (List.mem_of_mem_filter he)
    owned := fun e he => Keyed.mem_keys_erase_iff.2 ⟨h.owned e he, fun hk => hc (hk ▸ List.mem_map_of_mem he)⟩ }

theorem putChunks (h : m.Neat) {id : String} {cs : List Chunk} (hid : id ∈ Keyed.keys m.documents) (hne : cs ≠ [])
    (ho : ∀ c ∈ cs, c.document = id ∧ c.Lasting) (hn : (cs.map Chunk.index).Nodup) :
    ({ m with chunks := Keyed.put id (byIndex cs) m.chunks } : Memory).Neat :=
  have hfull : byIndex cs ≠ [] := fun hnil => hne ((List.mergeSort_perm cs _).symm.trans (.of_eq hnil)).eq_nil
  { h with
    owners := Keyed.nodup_keys_put h.owners
    owned := Keyed.forall_mem_put hid h.owned
    filled := Keyed.forall_mem_put hfull h.filled
    own := Keyed.forall_mem_put (fun c hc => ho c (List.mem_mergeSort.1 hc)) h.own
    ordered := Keyed.forall_mem_put (byIndex_strict hn) h.ordered }

theorem addLog (h : m.Neat) {l : RetrievalLog} (hl : l.Storable) (hf : l.id ∉ m.logs.map RetrievalLog.id) :
    (m.addLog l).Neat :=
  { h with
    logIds := by
      rw [Memory.addLog, List.map_append, List.nodup_append]
      exact ⟨h.logIds, by simp, fun a ha b hb he => hf (by rw [← List.mem_singleton.1 hb, ← he]; exact ha)⟩
    logs := fun k hk => by
      rcases List.mem_append.1 hk with hk | hk
      · exact h.logs k hk
      · exact List.mem_singleton.1 hk ▸ hl }

theorem dropLog (h : m.Neat) (id : String) :
    ({ m with logs := m.logs.filter fun l => l.id != id } : Memory).Neat :=
  { h with
    logIds := h.logIds.sublist (List.filter_sublist.map _)
    logs := fun l hl => h.logs l (List.mem_of_mem_filter hl) }

/-- As ids of logs differ, leaving out the first log of an id leaves out all of them. -/
theorem eraseP_eq {ls : List RetrievalLog} (hn : (ls.map RetrievalLog.id).Nodup) (id : String) :
    (ls.eraseP fun l => l.id = id) = ls.filter fun l => l.id != id := by
  induction ls with
  | nil => rfl
  | cons l r ih =>
    rw [List.map_cons, List.nodup_cons] at hn
    by_cases hl : l.id = id
    · have hr : ∀ k ∈ r, k.id ≠ id := fun k hk he => hn.1 (hl ▸ he ▸ List.mem_map_of_mem hk)
      rw [List.eraseP_cons_of_pos (by simp [hl]), List.filter_cons_of_neg (by simp [hl]),
        List.filter_eq_self.2 fun k hk => by simp [hr k hk]]
    · rw [List.eraseP_cons_of_neg (by simp [hl]), List.filter_cons_of_pos (by simp [hl]), ih hn.2]

end Memory.Neat

namespace Mirrors

variable {m : Memory} {d : Database}

/-- The row that an old document's row turns into is that of the new one, since the time of making is the same. -/
theorem put_alike (h : Mirrors m d) (now : Time) {doc : Document} (hd : doc.Lasting)
    (hk : ∀ old, m.document doc.id = .ok old → doc.created = old.created) :
    Alike (.ok (m.put doc)) (d.put now doc) := by
  have hrows : (d.tables.putDocument doc.row).documents = (m.put doc).documents.map fun e => e.2.row := by
    rw [Tables.putDocument, show doc.row.id = doc.id from rfl, h.hasDocument_eq, Memory.put]
    by_cases hm : doc.id ∈ Keyed.keys m.documents
    · rw [if_pos (Keyed.has_iff.2 hm), Keyed.put_of_mem doc h.once hm]
      dsimp only
      rw [h.documentRows, List.map_map, List.map_map]
      refine List.map_congr_left fun e he => ?_
      have hid : e.2.row.id = e.1 := h.ids e he
      by_cases heq : e.1 = doc.id
      · have hold : m.document doc.id = .ok e.2 := by
          rw [Memory.document, (Keyed.get?_eq_some_iff h.once).2 (show (doc.id, e.2) ∈ m.documents from heq ▸ he)]
        have hrow : { doc.row with created := e.2.row.created } = doc.row := by
          simp [Document.row, hk e.2 hold]
        simp only [Function.comp_apply, hid, heq, if_true]
        exact hrow
      · simp only [Function.comp_apply, hid, heq, if_false]
    · have hno : ¬ Keyed.has doc.id m.documents = true := fun hh => hm (Keyed.has_iff.1 hh)
      rw [if_neg hno, Keyed.put_of_not_mem doc hm]
      simp [h.documentRows]
  have hrest : (d.tables.putDocument doc.row).chunks = d.tables.chunks ∧
      (d.tables.putDocument doc.row).logs = d.tables.logs := by
    rw [Tables.putDocument]
    split <;> exact ⟨rfl, rfl⟩
  rw [Database.put, h.writing_eq, hd.row_eq]
  exact .changed
    { h with
      toNeat := h.toNeat.put hd
      documentRows := hrows
      chunkRows := by
        rw [hrest.1]
        exact h.chunkRows
      logRows := hrest.2.trans h.logRows }

/-- The rows of chunks that name another document. -/
theorem otherRows (h : Mirrors m d) (id : String) :
    ∃ cs : List Chunk, cs.Perm ((Keyed.erase id m.chunks).flatMap fun e => e.2) ∧
      d.tables.chunks.filter (fun r => r.document != id) = cs.map Chunk.row := by
  obtain ⟨cs, hp, hrows⟩ := h.chunkRows
  refine ⟨cs.filter fun c => c.document != id, ?_, by rw [hrows, List.filter_map]; rfl⟩
  rw [← filter_others (fun e he c hc => (h.own e he c hc).1) id]
  exact hp.filter _

/-- Dropping the chunks of a document goes alike in both stores. -/
theorem deleteChunks_alike (h : Mirrors m d) (id : String) : Alike (.ok (m.deleteChunks id)) (d.deleteChunks id) := by
  rw [Database.deleteChunks, h.writing_eq]
  exact .changed
    { h with
      toNeat := h.toNeat.deleteChunks id
      chunkRows := h.otherRows id }

theorem delete_alike (h : Mirrors m d) (id : String) : Alike (m.delete id) (d.delete id) := by
  rw [Memory.delete, Database.delete, h.writing_eq, h.hasDocument_eq]
  by_cases hid : Keyed.has id m.documents = true
  · rw [if_pos hid, if_pos hid]
    have hgone : id ∉ Keyed.keys (m.deleteChunks id).chunks := fun hk => (Keyed.mem_keys_erase_iff.1 hk).2 rfl
    refine .changed
      { h with
        toNeat := (h.toNeat.deleteChunks id).dropDocument hgone
        documentRows := ?_
        chunkRows := h.otherRows id }
    change d.tables.documents.filter _ = (Keyed.erase id m.documents).map _
    rw [h.documentRows, List.filter_map, Keyed.erase]
    refine congrArg _ (List.filter_congr fun e he => ?_)
    rw [Function.comp_apply, show e.2.row.id = e.1 from h.ids e he, bne, decide_not]
    rfl
  · rw [if_neg hid, if_neg hid]
    exact .refused _

theorem mapM_rows (now : Time) {id : String} {cs : List Chunk} (h : ∀ c ∈ cs, c.document = id ∧ c.Lasting) :
    cs.mapM (ChunkRow.ofChunk now id) = .ok (cs.map Chunk.row) := by
  induction cs with
  | nil => rfl
  | cons c cs ih =>
    obtain ⟨rfl, hc⟩ := h c List.mem_cons_self
    rw [List.mapM_cons, hc.row_eq now, ih fun c' hc' => h c' (List.mem_cons_of_mem c hc')]
    rfl

theorem replace_eq (h : Mirrors m d) (now : Time) {id : String} {cs : List Chunk}
    (ho : ∀ c ∈ cs, c.document = id ∧ c.Lasting) :
    d.replace now id cs =
      if Keyed.has id m.documents then
        ((d.tables.dropChunks id).addChunks id (cs.map Chunk.row)).map fun t => { d with tables := t }
      else .error (.unknownDocument id) := by
  rw [Database.replace, mapM_rows now ho, h.hasDocument_eq, h.isOpen]
  cases Keyed.has id m.documents with
  | true =>
    simp only [Bool.not_true, Bool.false_eq_true, if_false, if_true, bind, Except.bind]
    cases (d.tables.dropChunks id).addChunks id (cs.map Chunk.row) <;> rfl
  | false => rfl

/-- With chunks in the place of a document's chunks there are these and those of the other documents. -/
theorem flatMap_put {chunks : List (String × List Chunk)} (hn : (Keyed.keys chunks).Nodup) (id : String)
    (cs : List Chunk) :
    ((Keyed.put id (Memory.byIndex cs) chunks).flatMap fun e => e.2).Perm
      (((Keyed.erase id chunks).flatMap fun e => e.2) ++ cs) := by
  have hp : (Keyed.put id (Memory.byIndex cs) chunks).Perm _ := Keyed.put_perm (Memory.byIndex cs) hn
  refine (hp.flatMap_right _).trans ?_
  rw [List.flatMap_cons]
  exact ((List.mergeSort_perm cs _).append_right _).trans List.perm_append_comm

/-- Chunks whose ids no other document's chunks have replace those of a document in both. -/
theorem replace_alike (h : Mirrors m d) (now : Time) {id : String} {cs : List Chunk}
    (ho : ∀ c ∈ cs, c.document = id ∧ c.Lasting) (hn : (cs.map Chunk.index).Nodup) (hi : (cs.map Chunk.id).Nodup)
    (hu : ∀ e ∈ m.chunks, e.1 ≠ id → ∀ k ∈ e.2, ∀ c ∈ cs, c.id ≠ k.id)
    (hf : ∀ c ∈ cs, fitsColumn c.index = true) :
    Alike (m.replace id cs) (d.replace now id cs) := by
  rw [Memory.replace, h.replace_eq now ho]
  by_cases hid : Keyed.has id m.documents = true
  · obtain ⟨others, hp, hrows⟩ := h.otherRows id
    have hfree : ∀ r ∈ cs.map Chunk.row, ∀ o ∈ (d.tables.dropChunks id).chunks, o.id ≠ r.id := by
      intro r hr o ho'
      obtain ⟨c, hc, rfl⟩ := List.mem_map.1 hr
      rw [Tables.dropChunks, hrows] at ho'
      obtain ⟨k, hk, rfl⟩ := List.mem_map.1 ho'
      obtain ⟨e, he, hke⟩ := List.mem_flatMap.1 (hp.mem_iff.1 hk)
      exact Ne.symm (hu e (List.mem_of_mem_filter he) (by simpa using List.of_mem_filter he) k hke c hc)
    have hfit : ∀ r ∈ cs.map Chunk.row, fitsColumn r.index = true := by
      intro r hr
      obtain ⟨c, hc, rfl⟩ := List.mem_map.1 hr
      exact hf c hc
    have hids : ((cs.map Chunk.row).map ChunkRow.id).Nodup := by rwa [List.map_map]
    obtain ⟨t, ht⟩ := Store.addChunks_ok id hfit hids hfree
    rw [if_pos hid, if_pos hid, ht, Store.addChunks_eq ht, Tables.dropChunks, hrows, ← List.map_append]
    by_cases hne : cs = []
    · subst hne
      exact .changed
        { h with
          toNeat := h.toNeat.deleteChunks id
          chunkRows := ⟨others, hp, by rw [List.append_nil]⟩ }
    · have hfull : ¬ cs.isEmpty = true := by simpa using hne
      rw [if_neg hfull]
      exact .changed
        { h with
          toNeat := h.toNeat.putChunks (Keyed.has_iff.1 hid) hne ho hn
          chunkRows := ⟨others ++ cs, (hp.append_right cs).trans (flatMap_put h.owners id cs).symm, rfl⟩ }
  · rw [if_neg hid, if_neg hid]
    exact .refused _

theorem addLog_alike (h : Mirrors m d) {l : RetrievalLog} (hl : l.Storable) (hf : l.id ∉ m.logs.map RetrievalLog.id) :
    Alike (.ok (m.addLog l)) (d.addLog l) := by
  have hfree : ¬ d.tables.logs.any (fun r => r.id = l.id) = true := by
    rw [h.logRows, List.any_map, List.any_eq_true]
    rintro ⟨k, hk, he⟩
    have hid : k.id = l.id := of_decide_eq_true he
    exact hf (hid ▸ List.mem_map_of_mem hk)
  rw [Database.addLog, h.writing_eq, if_neg hfree]
  exact .changed
    { h with
      toNeat := h.toNeat.addLog hl hf
      logRows := by simp [h.logRows, Memory.addLog] }

theorem deleteLog_alike (h : Mirrors m d) (id : String) : Alike (m.deleteLog id) (d.deleteLog id) := by
  have hany : d.tables.logs.any (fun r => r.id = id) = m.logs.any fun l => l.id = id := by
    rw [h.logRows, List.any_map]
    rfl
  rw [Memory.deleteLog, Database.deleteLog, h.writing_eq, hany]
  by_cases hid : (m.logs.any fun l => l.id = id) = true
  · rw [if_pos hid, if_pos hid, Memory.Neat.eraseP_eq h.logIds]
    exact .changed
      { h with
        toNeat := h.toNeat.dropLog id
        logRows := by
          rw [h.logRows, List.filter_map]
          rfl }
  · rw [if_neg hid, if_neg hid]
    exact .refused _

end Mirrors

end Compendium
