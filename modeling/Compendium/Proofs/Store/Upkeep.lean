import Mathlib.Algebra.BigOperators.Group.List.Basic
import Mathlib.Algebra.Ring.Nat
import Compendium.Proofs.Store.Mirror
import Compendium.Proofs.Store.Putting

/-!
Chunks that belong to documents. In a store that is kept up no chunk outlives its document, and the chunks of a
document are numbered from zero on without gaps; whatever is asked of such a store then fits together.
-/
namespace Compendium.Store

def Consecutive (ns : List Int) : Prop := ns = (List.range ns.length).map Int.ofNat

/-- In memory, chunks lie under the id of their document, each id once. -/
def Grouped : Store → Prop
  | .memory m => (Keyed.keys m.chunks).Nodup ∧ ∀ e ∈ m.chunks, ∀ c ∈ e.2, c.document = e.1
  | .table _ => True

/-- Chunks lie under stored documents only. -/
def Owned (s : Store) : Prop := ∀ id, s.piecesOf id ≠ [] → ∃ x ∈ s.sources, x.id = id

/-- What every operation of the knowledge base leaves in place. -/
structure Upkept (s : Store) : Prop where
  sound : s.Sound
  grouped : s.Grouped
  numbered : ∀ id, Consecutive ((s.piecesOf id).map Piece.index)
  owned : ∀ id, s.piecesOf id ≠ [] → ∃ x ∈ s.sources, x.id = id

theorem New.piecesOf_eq_nil {s : Store} (h : s.New) (id : String) : s.piecesOf id = [] := by
  cases h <;> simp [piecesOf, empty, Memory.chunksOf]

theorem New.owned {s : Store} (h : s.New) : s.Owned := fun id hne => absurd (h.piecesOf_eq_nil id) hne

theorem New.upkept {s : Store} (h : s.New) : s.Upkept := by
  refine ⟨h.sound, ?_, fun id => by rw [h.piecesOf_eq_nil]; rfl, h.owned⟩
  cases h with
  | memory => exact ⟨List.nodup_nil, List.forall_mem_nil _⟩
  | table path => trivial

/-! Changes. -/

theorem grouped_of_table {r : Except Fault Database} {s : Store} (h : r.map .table = .ok s) : s.Grouped := by
  cases r <;> cases h
  trivial

theorem stored_of_has {m : Memory} (hs : (memory m).Sound) {id : String} (h : Keyed.has id m.documents = true) :
    ∃ x ∈ (memory m).sources, x.id = id := by
  obtain ⟨e, he, rfl⟩ := List.mem_map.1 (Keyed.has_iff.1 h)
  exact ⟨_, List.mem_map_of_mem he, hs.1 e he⟩

theorem stored_of_hasDocument {d : Database} {id : String} (h : d.tables.hasDocument id = true) :
    ∃ x ∈ (table d).sources, x.id = id := by
  obtain ⟨r, hr, hid⟩ := List.any_eq_true.1 h
  exact ⟨r.source, List.mem_map_of_mem hr, of_decide_eq_true hid⟩

/-- Chunks are only taken for a document that is stored. -/
theorem stored_of_replace {s s' : Store} (hs : s.Sound) {now : Time} {id : String} {cs : List Chunk}
    (h : replace now id cs s = .ok s') : ∃ x ∈ s.sources, x.id = id := by
  cases s with
  | memory m =>
    by_cases hm : Keyed.has id m.documents = true
    · exact stored_of_has hs hm
    · rw [replace, Memory.replace, if_neg hm] at h
      cases h
  | table d =>
    refine stored_of_hasDocument (d := d) (Decidable.byContradiction fun hd => ?_)
    rw [replace, Database.replace] at h
    cases hm : cs.mapM (ChunkRow.ofChunk now id) with
    | error e => simp [hm, bind, Except.bind, Except.map] at h
    | ok rows => simp [hm, hs.1, hd, bind, Except.bind, pure, Except.pure, Except.map] at h

theorem stored_of_delete {s s' : Store} (hs : s.Sound) {id : String} (h : delete id s = .ok s') :
    ∃ x ∈ s.sources, x.id = id := by
  cases s with
  | memory m =>
    by_cases hm : Keyed.has id m.documents = true
    · exact stored_of_has hs hm
    · rw [delete, Memory.delete, if_neg hm] at h
      cases h
  | table d =>
    refine stored_of_hasDocument (d := d) (Decidable.byContradiction fun hd => ?_)
    rw [delete, Database.delete, Database.writing, if_pos hs.1, if_neg hd] at h
    cases h

theorem Owned.put {s s' : Store} (hs : s.Sound) (h : s.Owned) {now : Time} {d : Document}
    (hp : Store.put now d s = .ok s') : s'.Owned := by
  intro id hne
  obtain ⟨t, ht, hin⟩ := put_outcome hs now d
  cases hp.symm.trans ht
  obtain ⟨x, hx, rfl⟩ := h id (hin.pieces id ▸ hne)
  by_cases hid : x.id = d.source.id
  · exact ⟨d.source, (hin.mem_sources _).2 (.inl rfl), hid.symm⟩
  · exact ⟨x, (hin.mem_sources _).2 (.inr ⟨hx, hid⟩), rfl⟩

theorem Owned.replace {s s' : Store} (hs : s.Sound) (h : s.Owned) {now : Time} {id : String} {cs : List Chunk}
    (hr : Store.replace now id cs s = .ok s') : s'.Owned := by
  intro other hne
  have hrep := replace_outcome hs hr
  rw [hrep.sources]
  by_cases ho : other = id
  · subst ho
    exact stored_of_replace hs hr
  · exact h other (hrep.others other ho ▸ hne)

theorem Upkept.put {s s' : Store} (h : s.Upkept) {now : Time} {d : Document} (hp : Store.put now d s = .ok s') :
    s'.Upkept := by
  obtain ⟨t, ht, hin⟩ := put_outcome h.sound now d
  cases hp.symm.trans ht
  refine ⟨hin.sound, ?_, fun id => hin.pieces id ▸ h.numbered id, Owned.put h.sound h.owned hp⟩
  cases s with
  | memory m =>
    cases ht
    exact h.grouped
  | table d' => exact grouped_of_table ht

/-- Chunks that name their document and are numbered without gaps may take the place of its chunks. -/
theorem Upkept.replace {s s' : Store} (h : s.Upkept) {now : Time} {id : String} {cs : List Chunk}
    (hd : ∀ c ∈ cs, c.document = id) (hn : Consecutive ((Memory.byIndex cs).map Chunk.index))
    (hr : Store.replace now id cs s = .ok s') : s'.Upkept := by
  have hrep := replace_outcome h.sound hr
  refine ⟨hrep.sound, ?_, fun other => ?_, Owned.replace h.sound h.owned hr⟩
  · cases s with
    | memory m =>
      rw [Store.replace, Memory.replace] at hr
      split at hr
      · cases hr
        dsimp only [Grouped]
        split
        · exact ⟨Keyed.nodup_keys_erase h.grouped.1, fun e he => h.grouped.2 e (List.mem_of_mem_filter he)⟩
        · exact ⟨Keyed.nodup_keys_put h.grouped.1,
            Keyed.forall_mem_put (fun c hc => hd c (List.mem_mergeSort.1 hc)) h.grouped.2⟩
      · cases hr
    | table d => exact grouped_of_table hr
  · by_cases ho : other = id
    · subst ho
      rw [hrep.own, List.map_map]
      exact hn
    · rw [hrep.others other ho]
      exact h.numbered other

structure Emptied (id : String) (s s' : Store) : Prop where
  sound : s'.Sound
  grouped : s.Grouped → s'.Grouped
  own : s'.piecesOf id = []
  others : ∀ other, other ≠ id → s'.piecesOf other = s.piecesOf other
  sources : ∀ x ∈ s.sources, x.id ≠ id → x ∈ s'.sources

theorem Owned.emptied {s s' : Store} (h : s.Owned) {id : String} (he : Emptied id s s') : s'.Owned := by
  intro other hne
  have ho : other ≠ id := fun ho => hne (ho ▸ he.own)
  obtain ⟨x, hx, rfl⟩ := h other (he.others other ho ▸ hne)
  exact ⟨x, he.sources x hx ho, rfl⟩

theorem Upkept.emptied {s s' : Store} (h : s.Upkept) {id : String} (he : Emptied id s s') : s'.Upkept := by
  refine ⟨he.sound, he.grouped h.grouped, fun other => ?_, Owned.emptied h.owned he⟩
  by_cases ho : other = id
  · subst ho
    rw [he.own]
    rfl
  · rw [he.others other ho]
    exact h.numbered other

theorem emptied_memory {m m' : Memory} {id : String} (hs : (memory m').Sound)
    (hc : m'.chunks = Keyed.erase id m.chunks)
    (hd : ∀ x ∈ (memory m).sources, x.id ≠ id → x ∈ (memory m').sources) :
    Emptied id (memory m) (memory m') where
  sound := hs
  grouped := by
    rintro ⟨hn, ho⟩
    rw [Grouped, hc]
    exact ⟨Keyed.nodup_keys_erase hn, fun e he => ho e (List.mem_of_mem_filter he)⟩
  own := by simp [piecesOf, Memory.chunksOf, hc, Keyed.get?_erase_self]
  others other ho := by simp only [piecesOf, Memory.chunksOf, hc, Keyed.get?_erase_of_ne _ (Ne.symm ho)]
  sources := hd

theorem emptied_table {d d' : Database} {id : String} (hs : (table d').Sound)
    (hc : d'.tables.chunks = (d.tables.dropChunks id).chunks)
    (hd : ∀ x ∈ (table d).sources, x.id ≠ id → x ∈ (table d').sources) : Emptied id (table d) (table d') where
  sound := hs
  grouped _ := trivial
  own := by
    have hnone : (d.tables.dropChunks id).chunks.filter (fun r => r.document = id) = [] := by
      simp [Tables.dropChunks, List.filter_eq_nil_iff]
    simp [piecesOf, hc, hnone]
  others other ho := by simp only [piecesOf, hc, rowsOf_dropped ho]
  sources := hd

/-- A document takes its chunks along when it goes. -/
theorem emptied_delete {s s' : Store} (hs : s.Sound) {id : String} (h : delete id s = .ok s') : Emptied id s s' := by
  obtain ⟨x, hx, rfl⟩ := stored_of_delete hs h
  obtain ⟨t, ht, hsound, hsources⟩ := delete_outcome hs hx
  cases h.symm.trans ht
  have hkept : ∀ y ∈ s.sources, y.id ≠ x.id → y ∈ s'.sources := fun y hy hne => (hsources y).2 ⟨hy, hne⟩
  cases s with
  | memory m =>
    rw [delete, Memory.delete] at h
    split at h <;> cases h
    exact emptied_memory hsound rfl hkept
  | table d =>
    rw [delete, Database.delete, Database.writing, if_pos hs.1] at h
    split at h <;> cases h
    exact emptied_table hsound rfl hkept

theorem emptied_deleteChunks {s s' : Store} (hs : s.Sound) {id : String} (h : deleteChunks id s = .ok s') :
    Emptied id s s' := by
  obtain ⟨t, ht, hsound, hsources⟩ := deleteChunks_outcome hs id
  cases h.symm.trans ht
  have hkept : ∀ y ∈ s.sources, y.id ≠ id → y ∈ s'.sources := fun y hy _ => hsources ▸ hy
  cases s with
  | memory m =>
    cases h
    exact emptied_memory hsound rfl hkept
  | table d =>
    rw [deleteChunks, Database.deleteChunks, Database.writing, if_pos hs.1] at h
    cases h
    exact emptied_table hsound rfl hkept

/-! Questions. -/

/-- Items by their keys: each key once, and no item without its key. -/
theorem perm_flatMap_filter {α : Type} (key : α → String) {ids : List String} (hn : ids.Nodup) {xs : List α}
    (h : ∀ x ∈ xs, key x ∈ ids) : (ids.flatMap fun i => xs.filter fun x => key x = i).Perm xs := by
  induction ids generalizing xs with
  | nil =>
    cases xs with
    | nil => exact .refl _
    | cons x xs => exact absurd (h x List.mem_cons_self) List.not_mem_nil
  | cons i ids ih =>
    obtain ⟨hi, hn⟩ := List.nodup_cons.1 hn
    let rest := xs.filter fun x => !decide (key x = i)
    have hrest : ∀ x ∈ rest, key x ∈ ids := fun x hx => by
      obtain ⟨hx, hne⟩ := List.mem_filter.1 hx
      exact (List.mem_cons.1 (h x hx)).resolve_left (by simpa using hne)
    have hsame : (ids.flatMap fun j => xs.filter fun x => key x = j) =
        ids.flatMap fun j => rest.filter fun x => key x = j := List.flatMap_congr fun j hj => by
      rw [List.filter_filter]
      refine List.filter_congr fun x _ => ?_
      by_cases hx : key x = j
      · have hne : j ≠ i := fun he => hi (he ▸ hj)
        simp [hx, hne]
      · simp [hx]
    rw [List.flatMap_cons, hsame]
    exact ((ih hn hrest).append_left _).trans (List.filter_append_perm _ xs)

/-- What belongs to items can be told from their keys. -/
theorem exists_of_nodup_keys {α β : Type} [Inhabited β] (key : α → String) (value : α → β) {xs : List α}
    (hn : (xs.map key).Nodup) : ∃ f : String → β, ∀ x ∈ xs, f (key x) = value x := by
  refine ⟨fun k => ((xs.find? fun x => key x = k).map value).getD default, fun x hx => ?_⟩
  dsimp only
  rw [find?_key key hn hx]
  rfl

/-- Items of a kind are as many as their keys, if each item has a key of its own. -/
theorem length_filter_of_keys {α : Type} (key : α → String) {p : α → Bool} {xs : List α}
    (hx : (xs.map key).Nodup)
    {ids : List String} (hn : ids.Nodup) (h : ∀ id, id ∈ ids ↔ ∃ x ∈ xs, p x = true ∧ key x = id) :
    ids.length = (xs.filter p).length := by
  have hkeys : ((xs.filter p).map key).Nodup := (List.filter_sublist.map key).nodup hx
  have hperm : ids.Perm ((xs.filter p).map key) :=
    (List.perm_ext_iff_of_nodup hn hkeys).2 fun id => by simp only [h, List.mem_map, List.mem_filter, and_assoc]
  rw [hperm.length_eq, List.length_map]

/-- In memory, the documents with chunks are counted by the ids under which chunks lie. -/
theorem indexed_memory {m : Memory} (h : (Keyed.keys m.chunks).Nodup) :
    ∃ ids : List String, (indexedCount (memory m)).outcome = .ok ids.length ∧ ids.Nodup ∧
      ∀ id, id ∈ ids ↔ (memory m).piecesOf id ≠ [] := by
  refine ⟨(m.chunks.filter fun e => !e.2.isEmpty).map (·.1), by rw [List.length_map]; rfl,
    (List.filter_sublist.map Prod.fst).nodup h, fun id => ?_⟩
  constructor
  · intro hid
    obtain ⟨e, he, rfl⟩ := List.mem_map.1 hid
    obtain ⟨he, hne⟩ := List.mem_filter.1 he
    rw [piecesOf, Memory.chunksOf, (Keyed.get?_eq_some_iff h).2 he]
    simpa using hne
  · intro hne
    cases hget : Keyed.get? id m.chunks with
    | none => simp [piecesOf, Memory.chunksOf, hget] at hne
    | some cs =>
      have hcs : cs ≠ [] := by simpa [piecesOf, Memory.chunksOf, hget] using hne
      have hkept : (id, cs) ∈ m.chunks.filter fun e => !e.2.isEmpty :=
        List.mem_filter.2 ⟨Keyed.mem_of_get?_eq_some hget, by simpa using hcs⟩
      exact List.mem_map.2 ⟨(id, cs), hkept, rfl⟩

theorem piecesOf_table_ne_nil {d : Database} {id : String} :
    (table d).piecesOf id ≠ [] ↔ ∃ r ∈ d.tables.chunks, r.document = id := by
  rw [← List.length_pos_iff, piecesOf, List.length_map, List.length_mergeSort, List.length_pos_iff, Ne,
    List.filter_eq_nil_iff]
  simp

/-- In a database, they are counted by the ids that the chunks name. -/
theorem indexed_table {d : Database} (h : d.isOpen = true) :
    ∃ ids : List String, (indexedCount (table d)).outcome = .ok ids.length ∧ ids.Nodup ∧
      ∀ id, id ∈ ids ↔ (table d).piecesOf id ≠ [] := by
  refine ⟨distinctTexts (d.tables.chunks.map (·.document)), ?_, nodup_distinctTexts _, fun id => ?_⟩
  · simp only [indexedCount, Database.indexedCount, Database.reading, h, if_true, Reading.outcome_pure]
  · rw [mem_distinctTexts, List.mem_map, piecesOf_table_ne_nil]

structure Lists (s : Store) (docs : List Document) : Prop where
  listed : (documentsOf none s).outcome = .ok docs
  total : (documentCount s).outcome = .ok docs.length
  found : ∀ d ∈ docs, (document d.id s).outcome = .ok d
  distinct : (docs.map Document.id).Nodup
  complete : ∀ x ∈ s.sources, x.id ∈ docs.map Document.id

theorem lists_memory {m : Memory} (h : (memory m).Sound) : Lists (memory m) (m.documentsOf none) := by
  have hperm : (m.documentsOf none).Perm (m.documents.map (·.2)) := by
    refine (List.mergeSort_perm _ _).trans (.of_eq (List.filter_eq_self.2 fun _ _ => rfl))
  have hids : (m.documents.map (·.2)).map Document.id = Keyed.keys m.documents := by
    rw [List.map_map]
    exact List.map_congr_left h.1
  refine ⟨rfl, ?_, fun d hd => ?_, ?_, fun x hx => ?_⟩
  · rw [hperm.length_eq, List.length_map]
    rfl
  · obtain ⟨e, he, rfl⟩ := List.mem_map.1 (hperm.mem_iff.1 hd)
    have hget : Keyed.get? e.2.id m.documents = some e.2 := (Keyed.get?_eq_some_iff h.2).2 (by rwa [h.1 e he])
    simp only [document, Memory.document, hget, Reading.outcome_ofExcept]
  · exact (hperm.map Document.id).nodup_iff.2 (hids ▸ h.2)
  · obtain ⟨e, he, rfl⟩ := List.mem_map.1 hx
    exact List.mem_map_of_mem (hperm.mem_iff.2 (List.mem_map_of_mem he))

theorem lists_table {d : Database} (h : (table d).Sound) : ∃ docs, Lists (table d) docs := by
  choose g hg hsource using DocumentRow.read_outcome
  have hid (r : DocumentRow) : (g r).id = r.id := congrArg Source.id (hsource r)
  let rows := sortByTexts DocumentRow.category DocumentRow.title (d.tables.documents.filter fun _ => true)
  have hperm : rows.Perm d.tables.documents :=
    (List.mergeSort_perm _ _).trans (.of_eq (List.filter_eq_self.2 fun _ _ => rfl))
  have hids : (rows.map g).map Document.id = rows.map DocumentRow.id := by
    rw [List.map_map]
    exact List.map_congr_left fun r _ => hid r
  refine ⟨rows.map g, ?_, ?_, fun doc hdoc => ?_, ?_, fun x hx => ?_⟩
  · simp only [documentsOf, Database.documentsOf, Database.reading, h.1, if_true]
    exact Reading.outcome_each fun r _ => hg r
  · rw [List.length_map, hperm.length_eq]
    simp only [documentCount, Database.documentCount, Database.reading, h.1, if_true, Reading.outcome_pure]
  · obtain ⟨r, hr, rfl⟩ := List.mem_map.1 hdoc
    have hr := hperm.mem_iff.1 hr
    have hfind : (d.tables.documents.find? fun r' => r'.id = (g r).id) = some r := by
      rw [hid]
      exact find?_key DocumentRow.id h.2.1 hr
    simp only [document, Database.document, Database.reading, h.1, if_true, hfind, hg]
  · exact hids ▸ (hperm.map DocumentRow.id).nodup_iff.2 h.2.1
  · obtain ⟨r, hr, rfl⟩ := List.mem_map.1 hx
    exact hids ▸ List.mem_map_of_mem (hperm.mem_iff.2 hr)

/-- All chunks of a store in some order, those of each document, and what is asked about them. -/
structure Spread (s : Store) (docs : List Document) (all : List Chunk) (chunks : String → List Chunk) : Prop where
  each : ∀ id, (chunksOf id s).outcome = .ok (chunks id)
  own : ∀ id, (chunks id).Perm (all.filter fun c => c.document = id)
  count : (chunkCount s).outcome = .ok all.length
  candidates : ∀ heads : String → Header, (∀ d ∈ docs, heads d.id = d.header) →
    ∃ ks, (candidates none s).outcome = .ok ks ∧ ks.Perm (all.map fun c => ⟨c, heads c.document⟩)
  indexed : ∃ ids : List String, (indexedCount s).outcome = .ok ids.length ∧ ids.Nodup ∧
    ∀ id, id ∈ ids ↔ ∃ c ∈ all, c.document = id

theorem spread_memory {m : Memory} {docs : List Document} (hl : Lists (memory m) docs) (hg : (memory m).Grouped)
    (ho : ∀ e ∈ m.chunks, e.2 ≠ [] → e.1 ∈ docs.map Document.id) :
    Spread (memory m) docs (m.chunks.flatMap fun e => e.2) m.chunksOf := by
  refine ⟨fun _ => rfl, fun id => .of_eq (Mirrors.filter_owned hg.1 hg.2 id).symm, rfl, fun heads hh => ?_, ?_⟩
  · refine ⟨m.candidates none, rfl, .of_eq ?_⟩
    rw [Memory.candidates, List.map_flatMap]
    refine List.flatMap_congr fun e he => ?_
    by_cases hne : e.2 = []
    · rw [hne]
      split <;> rfl
    · obtain ⟨d, hd, hid⟩ := List.mem_map.1 (ho e he hne)
      have hget : Keyed.get? e.1 m.documents = some d := by
        have hfound := hl.found d hd
        rw [hid] at hfound
        simp only [document, Memory.document, Reading.outcome_ofExcept] at hfound
        split at hfound
        next doc hdoc =>
          cases hfound
          exact hdoc
        next => cases hfound
      rw [hget]
      refine List.map_congr_left fun c hc => ?_
      rw [hg.2 e he c hc, ← hid, hh d hd]
  · obtain ⟨ids, hids, hn, hmem⟩ := indexed_memory hg.1
    refine ⟨ids, hids, hn, fun id => (hmem id).trans ?_⟩
    have hown : m.chunksOf id = (m.chunks.flatMap fun e => e.2).filter fun c => c.document = id :=
      (Mirrors.filter_owned hg.1 hg.2 id).symm
    simp only [piecesOf, hown, ne_eq, List.map_eq_nil_iff, List.filter_eq_nil_iff, decide_eq_true_eq, not_forall,
      not_not, exists_prop]

/-- The header of a chunk's document is that of the document as it is found. -/
theorem headerOf_table {d : Database} (h : (table d).Sound) {doc : Document} {r : ChunkRow}
    (hfound : (document doc.id (table d)).outcome = .ok doc) (hid : doc.id = r.document) :
    d.tables.headerOf? r = some doc.header := by
  simp only [document, Database.document, Database.reading, h.1, if_true] at hfound
  rw [Tables.headerOf?, ← hid]
  cases hf : d.tables.documents.find? fun row => row.id = doc.id with
  | none => simp [hf] at hfound
  | some row =>
    obtain ⟨doc', hread, hsource⟩ := row.read_outcome
    simp only [hf, hread, Except.ok.injEq] at hfound
    subst hfound
    simp only [Option.map_some, Document.header, Option.some.injEq, Header.mk.injEq, true_and]
    exact ⟨(congrArg Source.category hsource).symm, (congrArg Source.title hsource).symm⟩

theorem spread_table {d : Database} (h : (table d).Sound) {docs : List Document} (hl : Lists (table d) docs)
    (ho : ∀ r ∈ d.tables.chunks, r.document ∈ docs.map Document.id) :
    ∃ all chunks, Spread (table d) docs all chunks := by
  have hread : ∀ r ∈ d.tables.chunks, ∃ c, r.read.outcome = .ok c ∧ c.document = r.document := fun r hr =>
    let ⟨c, hc, _, hd⟩ := r.read_outcome (h.2.2 r hr)
    ⟨c, hc, hd⟩
  choose! g hg hgd using hread
  refine ⟨d.tables.chunks.map g, fun id =>
    ((d.tables.chunks.filter fun r => r.document = id).mergeSort fun a b => a.index ≤ b.index).map g,
    fun id => ?_, fun id => ?_, ?_, fun heads hh => ?_, ?_⟩
  · simp only [chunksOf, Database.chunksOf, Database.reading, h.1, if_true]
    exact Reading.outcome_each fun r hr => hg r (List.mem_of_mem_filter (List.mem_mergeSort.1 hr))
  · have hfilter : (d.tables.chunks.map g).filter (fun c => c.document = id) =
        (d.tables.chunks.filter fun r => r.document = id).map g := by
      rw [List.filter_map]
      congr 1
      exact List.filter_congr fun r hr => by rw [Function.comp_apply, hgd r hr]
    rw [hfilter]
    exact (List.mergeSort_perm _ _).map g
  · simp only [chunkCount, Database.chunkCount, Database.reading, h.1, if_true, Reading.outcome_pure, List.length_map]
  · have hhead : ∀ r ∈ d.tables.chunks, d.tables.headerOf? r = some (heads r.document) := fun r hr => by
      obtain ⟨doc, hdoc, hid⟩ := List.mem_map.1 (ho r hr)
      rw [headerOf_table h (hl.found doc hdoc) hid, ← hid, hh doc hdoc]
    have hjoined : (d.tables.chunks.filterMap fun r => (d.tables.headerOf? r).map fun x => (r, x)) =
        d.tables.chunks.map fun r => (r, heads r.document) := by
      rw [List.filterMap_congr (g := fun r => some (r, heads r.document)) fun r hr => by rw [hhead r hr]; rfl]
      exact congrFun List.filterMap_eq_map _
    let joined := d.tables.chunks.map fun r => (r, heads r.document)
    have hall : joined.filter (fun e => matchesCategory none e.2.category) = joined :=
      List.filter_eq_self.2 fun _ _ => rfl
    have hmem : ∀ e ∈ Tables.inOrder joined, e.1 ∈ d.tables.chunks := fun e he => by
      obtain ⟨r, hr, rfl⟩ := List.mem_map.1 (List.mem_mergeSort.1 he)
      exact hr
    refine ⟨(Tables.inOrder joined).map fun e => ⟨g e.1, e.2⟩, ?_, ?_⟩
    · simp only [candidates, Database.candidates, Database.reading, h.1, if_true]
      rw [hjoined, hall]
      exact Reading.outcome_each fun e he => by
        simp only [Reading.outcome_bind, hg e.1 (hmem e he)]
        rfl
    · refine ((List.mergeSort_perm _ _).map _).trans (.of_eq ?_)
      rw [List.map_map, List.map_map]
      exact List.map_congr_left fun r hr => by simp only [Function.comp_apply, hgd r hr]
  · obtain ⟨ids, hids, hn, hmem⟩ := indexed_table h.1
    refine ⟨ids, hids, hn, fun id => (hmem id).trans (piecesOf_table_ne_nil.trans ?_)⟩
    constructor
    · rintro ⟨r, hr, rfl⟩
      exact ⟨g r, List.mem_map_of_mem hr, hgd r hr⟩
    · rintro ⟨c, hc, rfl⟩
      obtain ⟨r, hr, rfl⟩ := List.mem_map.1 hc
      exact ⟨r, hr, (hgd r hr).symm⟩

/-- The answers of a store fit together: each chunk belongs to a document that is listed and found, the chunks of a
document are numbered without gaps, and counts and candidates are those of the documents put together. -/
structure Coherent (s : Store) (docs : List Document) (chunks : String → List Chunk) : Prop extends Lists s docs where
  each : ∀ id, (chunksOf id s).outcome = .ok (chunks id)
  owned : ∀ id, ∀ c ∈ chunks id, c.document = id ∧ id ∈ docs.map Document.id
  numbered : ∀ id, Consecutive ((chunks id).map Chunk.index)
  count : (chunkCount s).outcome = .ok (docs.map fun d => (chunks d.id).length).sum
  candidates : ∃ ks, (candidates none s).outcome = .ok ks ∧
    ks.Perm (docs.flatMap fun d => (chunks d.id).map fun c => ⟨c, d.header⟩)
  indexed : (indexedCount s).outcome = .ok (docs.filter fun d => !(chunks d.id).isEmpty).length

/-- The chunks of a store that is kept up can be told document by document. -/
theorem Upkept.spread {s : Store} (h : s.Upkept) : ∃ docs all chunks, Lists s docs ∧ Spread s docs all chunks := by
  cases s with
  | memory m =>
    have hl := lists_memory h.sound
    refine ⟨_, _, _, hl, spread_memory hl h.grouped fun e he hne => ?_⟩
    have hpieces : (memory m).piecesOf e.1 = e.2.map Chunk.piece := by
      rw [piecesOf, Memory.chunksOf, (Keyed.get?_eq_some_iff h.grouped.1).2 he]
      rfl
    obtain ⟨x, hx, hid⟩ := h.owned e.1 (by simpa [hpieces] using hne)
    exact hid ▸ hl.complete x hx
  | table d =>
    obtain ⟨docs, hl⟩ := lists_table h.sound
    obtain ⟨all, chunks, hs⟩ := spread_table h.sound hl fun r hr => by
      have hrow :
          r ∈ (d.tables.chunks.filter fun r' => r'.document = r.document).mergeSort fun a b => a.index ≤ b.index :=
        List.mem_mergeSort.2 (List.mem_filter.2 ⟨hr, by simp⟩)
      obtain ⟨x, hx, hid⟩ :=
        h.owned r.document (List.ne_nil_of_mem (List.mem_map_of_mem (f := ChunkRow.piece) hrow))
      exact hid ▸ hl.complete x hx
    exact ⟨docs, all, chunks, hl, hs⟩

namespace Spread

variable {s : Store} {docs : List Document} {all : List Chunk} {chunks : String → List Chunk}

theorem mem_chunks (h : Spread s docs all chunks) {id : String} {c : Chunk} :
    c ∈ chunks id ↔ c ∈ all ∧ c.document = id := by
  rw [(h.own id).mem_iff, List.mem_filter, decide_eq_true_eq]

/-- The chunks of all documents together are all chunks. -/
theorem together (h : Spread s docs all chunks) (hl : Lists s docs)
    (ho : ∀ c ∈ all, c.document ∈ docs.map Document.id) : (docs.flatMap fun d => chunks d.id).Perm all := by
  have hparts := perm_flatMap_filter Chunk.document hl.distinct ho
  rw [List.flatMap_map] at hparts
  exact (List.Perm.flatMap_left docs fun d _ => h.own d.id).trans hparts

/-- The candidates are the chunks of all documents, each with the header of its document. -/
theorem joined (h : Spread s docs all chunks) (hl : Lists s docs)
    (ho : ∀ c ∈ all, c.document ∈ docs.map Document.id) :
    ∃ ks, (Store.candidates none s).outcome = .ok ks ∧
      ks.Perm (docs.flatMap fun d => (chunks d.id).map fun c => ⟨c, d.header⟩) := by
  obtain ⟨heads, hheads⟩ := exists_of_nodup_keys Document.id Document.header hl.distinct
  obtain ⟨ks, hks, hperm⟩ := h.candidates heads hheads
  refine ⟨ks, hks, hperm.trans (((h.together hl ho).symm.map _).trans (.of_eq ?_))⟩
  rw [List.map_flatMap]
  refine List.flatMap_congr fun d hd => List.map_congr_left fun c hc => ?_
  rw [(h.mem_chunks.1 hc).2, hheads d hd]

/-- The documents with chunks are the ones that are counted. -/
theorem filled (h : Spread s docs all chunks) (hl : Lists s docs)
    (ho : ∀ c ∈ all, c.document ∈ docs.map Document.id) :
    (indexedCount s).outcome = .ok (docs.filter fun d => !(chunks d.id).isEmpty).length := by
  obtain ⟨ids, hids, hnodup, hmem⟩ := h.indexed
  rw [hids, length_filter_of_keys Document.id hl.distinct hnodup fun id => ?_]
  rw [hmem]
  constructor
  · rintro ⟨c, hc, rfl⟩
    obtain ⟨d, hd, hid⟩ := List.mem_map.1 (ho c hc)
    have hne : (chunks d.id).isEmpty = false :=
      List.isEmpty_eq_false_iff_exists_mem.2 ⟨c, h.mem_chunks.2 ⟨hc, hid.symm⟩⟩
    exact ⟨d, hd, by rw [hne]; rfl, hid⟩
  · rintro ⟨d, -, hne, rfl⟩
    obtain ⟨c, hc⟩ := List.exists_mem_of_ne_nil (chunks d.id) (by simpa using hne)
    exact ⟨c, h.mem_chunks.1 hc⟩

end Spread

/-- Whatever is asked of a store that is kept up, the answers fit together. -/
theorem Upkept.coherent {s : Store} (h : s.Upkept) : ∃ docs chunks, Coherent s docs chunks := by
  obtain ⟨docs, all, chunks, hl, hs⟩ := h.spread
  have hpieces : ∀ id, (chunks id).map Chunk.piece = s.piecesOf id := by
    intro id
    obtain ⟨cs, hcs, hp⟩ := chunksOf_outcome h.sound id
    cases hcs.symm.trans (hs.each id)
    exact hp
  have hknown : ∀ id, ∀ c ∈ chunks id, id ∈ docs.map Document.id := by
    intro id c hc
    obtain ⟨x, hx, rfl⟩ := h.owned id (hpieces id ▸ List.ne_nil_of_mem (List.mem_map_of_mem hc))
    exact hl.complete x hx
  have hall : ∀ c ∈ all, c.document ∈ docs.map Document.id :=
    fun c hc => hknown _ c (hs.mem_chunks.2 ⟨hc, rfl⟩)
  have hnumbered : ∀ id, Consecutive ((chunks id).map Chunk.index) := by
    intro id
    have := h.numbered id
    rwa [← hpieces, List.map_map] at this
  exact
    ⟨docs, chunks,
      { toLists := hl
        each := hs.each
        owned := fun id c hc => ⟨(hs.mem_chunks.1 hc).2, hknown id c hc⟩
        numbered := hnumbered
        count := by rw [hs.count, ← (hs.together hl hall).length_eq, List.length_flatMap]
        candidates := hs.joined hl hall
        indexed := hs.filled hl hall }⟩

end Compendium.Store
