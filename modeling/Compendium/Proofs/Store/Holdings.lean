import Mathlib.Data.List.Lattice
import Mathlib.Data.List.Nodup
import Mathlib.Data.List.Pairwise
import Compendium.Store.Basic

/-!
What a store of either kind holds, read off its state: the documents without
their times, and the chunks of each document. Every operation is described by
what it does to these two.
-/
namespace Compendium

/-- A document without its times. -/
structure Source where
  id : String
  category : String
  title : String
  content : String
  path : String
  deriving DecidableEq

/-- A chunk without its id and its time. -/
structure Piece where
  index : Int
  text : String
  vector : Option Embedding

def Document.source (d : Document) : Source := ⟨d.id, d.category, d.title, d.content, d.path⟩

def DocumentRow.source (r : DocumentRow) : Source := ⟨r.id, r.category, r.title, r.content, r.path⟩

def Chunk.piece (c : Chunk) : Piece := ⟨c.index, c.text, c.vector⟩

def ChunkRow.piece (r : ChunkRow) : Piece := ⟨r.index, r.text, Number.Single.decode? r.vector⟩

/-! Single rows. -/

/-- Reading a stored time never fails. -/
theorem storedTime_outcome (s : Option String) : ∃ t, (storedTime s).outcome = .ok t := by
  cases s with
  | none => exact ⟨none, rfl⟩
  | some s =>
    simp only [storedTime]
    split
    · exact ⟨none, rfl⟩
    · cases Time.ofIso? s with
      | some t => exact ⟨some t, rfl⟩
      | none => exact ⟨none, rfl⟩

theorem DocumentRow.read_outcome (r : DocumentRow) : ∃ d, r.read.outcome = .ok d ∧ d.source = r.source := by
  obtain ⟨created, hc⟩ := storedTime_outcome r.created
  obtain ⟨updated, hu⟩ := storedTime_outcome r.updated
  refine ⟨_, by simp only [read, Reading.outcome_bind, hc, hu]; rfl, rfl⟩

/-- A row whose octets are those of a vector can be read. -/
theorem ChunkRow.read_outcome (r : ChunkRow) (h : r.piece.vector.isSome) :
    ∃ c, r.read.outcome = .ok c ∧ c.piece = r.piece ∧ c.document = r.document := by
  obtain ⟨v, hv⟩ := Option.isSome_iff_exists.1 h
  obtain ⟨created, hc⟩ := storedTime_outcome r.created
  have hd : (storedVector r.vector).outcome = .ok v := by
    simp only [storedVector, Embedding.ofBytes?, Reading.outcome_ofExcept]
    rw [show Number.Single.decode? r.vector = some v from hv]
  refine ⟨_, by simp only [read, Reading.outcome_bind, hd, hc]; rfl, ?_, rfl⟩
  simp only [Chunk.piece, piece] at hv ⊢
  rw [hv]

theorem ChunkRow.ofChunk_piece {now : Time} {id : String} {c : Chunk} {r : ChunkRow}
    (h : ChunkRow.ofChunk now id c = .ok r) :
    r.piece = c.piece ∧ r.document = id ∧ r.id = c.id ∧ c.vector.isSome := by
  cases hv : c.vector with
  | none => simp [ofChunk, hv] at h
  | some v =>
    simp only [ofChunk, hv, Except.ok.injEq] at h
    subst h
    simp [piece, Chunk.piece, hv, Embedding.toBytes, Number.Single.decode?_encode]

namespace Store

def sources : Store → List Source
  | .memory m => m.documents.map fun e => e.2.source
  | .table d => d.tables.documents.map DocumentRow.source

def piecesOf (id : String) : Store → List Piece
  | .memory m => (m.chunksOf id).map Chunk.piece
  | .table d =>
    ((d.tables.chunks.filter fun r => r.document = id).mergeSort fun a b => a.index ≤ b.index).map ChunkRow.piece

def chunkIds : Store → List String
  | .memory m => m.chunks.flatMap fun e => e.2.map Chunk.id
  | .table d => d.tables.chunks.map ChunkRow.id

/-- Documents lie under their own ids, each id once; a database is open and its vectors can be read. -/
def Sound : Store → Prop
  | .memory m => (∀ e ∈ m.documents, e.2.id = e.1) ∧ (Keyed.keys m.documents).Nodup
  | .table d =>
    d.isOpen = true ∧ (d.tables.documents.map DocumentRow.id).Nodup ∧
      ∀ r ∈ d.tables.chunks, r.piece.vector.isSome

/-- Whether as many chunks can be numbered in a store; the columns of a database hold 64 bits. -/
def HasRoom (n : Nat) : Store → Prop
  | .memory _ => True
  | .table _ => n ≤ Number.twoTo 63

instance (n : Nat) (s : Store) : Decidable (s.HasRoom n) :=
  match s with
  | .memory _ => isTrue trivial
  | .table _ => inferInstanceAs (Decidable (n ≤ Number.twoTo 63))

theorem nodup_sources {s : Store} (h : s.Sound) : (s.sources.map Source.id).Nodup := by
  cases s with
  | memory m =>
    have : m.documents.map (fun e => e.2.id) = Keyed.keys m.documents :=
      List.map_congr_left fun e he => h.1 e he
    simpa [sources, Function.comp_def, Document.source, this] using h.2
  | table d => simpa [sources, Function.comp_def, DocumentRow.source] using h.2.1

/-- Sources are told apart by their ids. -/
theorem eq_of_mem_sources {s : Store} (h : s.Sound) {x y : Source} (hx : x ∈ s.sources) (hy : y ∈ s.sources)
    (he : x.id = y.id) : x = y :=
  List.inj_on_of_nodup_map (nodup_sources h) hx hy he

inductive New : Store → Prop where
  | memory : New empty
  | table (path : String) : New (.table ⟨path, true, {}⟩)

theorem New.sound {s : Store} (h : s.New) : s.Sound := by
  cases h with
  | memory => exact ⟨nofun, List.nodup_nil⟩
  | table path => exact ⟨rfl, List.nodup_nil, nofun⟩

/-- A new store holds nothing. -/
theorem New.holds_nothing {s : Store} (h : s.New) : s.sources = [] ∧ s.chunkIds = [] := by
  cases h with
  | memory => exact ⟨rfl, rfl⟩
  | table path => exact ⟨rfl, rfl⟩

/-! Looking documents up. -/

theorem document_outcome {s : Store} (h : s.Sound) {id : String} {d : Document}
    (hd : (document id s).outcome = .ok d) : d.source ∈ s.sources ∧ d.id = id := by
  cases s with
  | memory m =>
    simp only [document, Memory.document, Reading.outcome_ofExcept] at hd
    cases hg : Keyed.get? id m.documents with
    | none => simp [hg] at hd
    | some d' =>
      simp only [hg, Except.ok.injEq] at hd
      subst hd
      have hm := Keyed.mem_of_get?_eq_some hg
      exact ⟨List.mem_map_of_mem (f := fun e => e.2.source) hm, h.1 _ hm⟩
  | table t =>
    simp only [document, Database.document, Database.reading, h.1, if_true] at hd
    cases hf : t.tables.documents.find? fun r => r.id = id with
    | none => simp [hf] at hd
    | some r =>
      obtain ⟨d', hd', hs⟩ := r.read_outcome
      simp only [hf, hd', Except.ok.injEq] at hd
      subst hd
      have hr : r.id = id := by simpa using List.find?_some hf
      refine ⟨hs ▸ List.mem_map_of_mem (List.mem_of_find?_eq_some hf), ?_⟩
      rw [← hr]
      exact congrArg Source.id hs

/-- Every stored document is found under its id. -/
theorem document_of_mem {s : Store} (h : s.Sound) {x : Source} (hx : x ∈ s.sources) :
    ∃ d, (document x.id s).outcome = .ok d ∧ d.source = x := by
  suffices hs : ∃ d, (document x.id s).outcome = .ok d by
    obtain ⟨d, hd⟩ := hs
    obtain ⟨hm, hi⟩ := document_outcome h hd
    exact ⟨d, hd, eq_of_mem_sources h hm hx hi⟩
  cases s with
  | memory m =>
    obtain ⟨e, he, rfl⟩ := List.mem_map.1 hx
    have hk : e.2.source.id ∈ Keyed.keys m.documents := by
      rw [show e.2.source.id = e.1 from h.1 e he]
      exact List.mem_map_of_mem he
    cases hg : Keyed.get? e.2.source.id m.documents with
    | none => exact absurd hk (Keyed.get?_eq_none_iff.1 hg)
    | some d => exact ⟨d, by simp [document, Memory.document, hg]⟩
  | table t =>
    obtain ⟨r, hr, rfl⟩ := List.mem_map.1 hx
    cases hf : t.tables.documents.find? fun r' => r'.id = r.source.id with
    | none => simpa using List.find?_eq_none.1 hf r hr (by simp [DocumentRow.source])
    | some r' =>
      obtain ⟨d, hd, -⟩ := r'.read_outcome
      exact ⟨d, by simp only [document, Database.document, Database.reading, h.1, if_true, hf, hd]⟩

/-- Looking up a file gives a document that has it, if there is any. -/
theorem atPath_outcome {s : Store} (h : s.Sound) (path : String) :
    ((atPath? path s).outcome = .ok none ∧ ∀ x ∈ s.sources, x.path ≠ path) ∨
      ∃ d, (atPath? path s).outcome = .ok (some d) ∧ d.source ∈ s.sources ∧ d.path = path := by
  cases s with
  | memory m =>
    simp only [atPath?, Memory.atPath?, Reading.outcome_pure, Except.ok.injEq]
    cases hf : (m.documents.map (·.2)).find? fun d => d.path = path with
    | none =>
      refine .inl ⟨rfl, fun x hx => ?_⟩
      obtain ⟨e, he, rfl⟩ := List.mem_map.1 hx
      simpa [Document.source] using List.find?_eq_none.1 hf e.2 (List.mem_map_of_mem he)
    | some d =>
      obtain ⟨e, he, rfl⟩ := List.mem_map.1 (List.mem_of_find?_eq_some hf)
      exact .inr ⟨_, rfl, List.mem_map_of_mem (f := fun e => e.2.source) he, by simpa using List.find?_some hf⟩
  | table t =>
    simp only [atPath?, Database.atPath?, Database.reading, h.1, if_true]
    cases hf : t.tables.documents.find? fun r => r.path = path with
    | none =>
      refine .inl ⟨rfl, fun x hx => ?_⟩
      obtain ⟨r, hr, rfl⟩ := List.mem_map.1 hx
      simpa [DocumentRow.source] using List.find?_eq_none.1 hf r hr
    | some r =>
      obtain ⟨d, hd, hs⟩ := r.read_outcome
      refine .inr ⟨d, by simp only [Reading.outcome_map, hd]; rfl, ?_, ?_⟩
      · exact hs ▸ List.mem_map_of_mem (List.mem_of_find?_eq_some hf)
      · have hp : r.path = path := by simpa using List.find?_some hf
        exact (congrArg Source.path hs).trans hp

theorem ids_outcome {s : Store} (h : s.Sound) :
    ∃ l, (ids s).outcome = .ok l ∧ ∀ id, id ∈ l ↔ ∃ x ∈ s.sources, x.id = id := by
  cases s with
  | memory m =>
    refine ⟨m.ids, rfl, fun id => ?_⟩
    simp only [Memory.ids, Keyed.keys, sources, List.mem_map, exists_exists_and_eq_and]
    constructor
    · rintro ⟨e, he, rfl⟩
      exact ⟨e, he, h.1 e he⟩
    · rintro ⟨e, he, rfl⟩
      exact ⟨e, he, (h.1 e he).symm⟩
  | table t =>
    refine ⟨sortByText id (t.tables.documents.map (·.id)), ?_, fun i => ?_⟩
    · simp only [ids, Database.ids, Database.reading, h.1, if_true, Reading.outcome_pure]
    · simp [sortByText, List.mem_mergeSort, sources, DocumentRow.source]

/-! Changing documents. -/

structure SameChunks (s s' : Store) : Prop where
  pieces : ∀ id, s'.piecesOf id = s.piecesOf id
  ids : s'.chunkIds = s.chunkIds
  room : ∀ n, s.HasRoom n → s'.HasRoom n

/-- A document that is put in place is there afterwards, beside the ones with other ids. -/
structure PutIn (x : Source) (s s' : Store) : Prop extends SameChunks s s' where
  sound : s'.Sound
  mem_sources : ∀ y, y ∈ s'.sources ↔ y = x ∨ y ∈ s.sources ∧ y.id ≠ x.id
  others : ∀ id, id ≠ x.id → (document id s').outcome = (document id s).outcome

theorem putDocument_sources (row : DocumentRow) (t : Tables) (y : Source) :
    y ∈ (t.putDocument row).documents.map DocumentRow.source ↔
      y = row.source ∨ y ∈ t.documents.map DocumentRow.source ∧ y.id ≠ row.id := by
  have hrow : ∀ r : DocumentRow, (DocumentRow.source { row with created := r.created }) = row.source := fun _ => rfl
  by_cases hh : t.hasDocument row.id
  · simp only [Tables.putDocument, hh, if_true, List.map_map, List.mem_map, Function.comp_apply]
    constructor
    · rintro ⟨r, hr, rfl⟩
      by_cases hi : r.id = row.id
      · exact .inl (by rw [if_pos hi, hrow])
      · exact .inr ⟨⟨r, hr, by rw [if_neg hi]⟩, by rw [if_neg hi]; exact hi⟩
    · rintro (rfl | ⟨⟨r, hr, rfl⟩, hi⟩)
      · obtain ⟨r, hr, hi⟩ := List.any_eq_true.1 hh
        exact ⟨r, hr, by rw [if_pos (by simpa using hi), hrow]⟩
      · exact ⟨r, hr, by rw [if_neg (show r.id ≠ row.id from hi)]⟩
  · have hn : ∀ r ∈ t.documents, r.id ≠ row.id := by simpa [Tables.hasDocument] using hh
    simp only [Tables.putDocument, hh, Bool.false_eq_true, if_false, List.map_append, List.mem_append, List.map_cons,
      List.map_nil, List.mem_singleton]
    constructor
    · rintro (hy | rfl)
      · obtain ⟨r, hr, rfl⟩ := List.mem_map.1 hy
        exact .inr ⟨hy, hn r hr⟩
      · exact .inl rfl
    · rintro (rfl | ⟨hy, -⟩)
      · exact .inr rfl
      · exact .inl hy

theorem putDocument_ids (row : DocumentRow) (t : Tables) (h : (t.documents.map DocumentRow.id).Nodup) :
    ((t.putDocument row).documents.map DocumentRow.id).Nodup := by
  by_cases hh : t.hasDocument row.id
  · have hid : ∀ r : DocumentRow, (if r.id = row.id then { row with created := r.created } else r).id = r.id := by
      intro r
      split
      · rename_i hi
        exact hi.symm
      · rfl
    simpa only [Tables.putDocument, hh, if_true, List.map_map, Function.comp_def, hid] using h
  · have hn : ∀ r ∈ t.documents, r.id ≠ row.id := by simpa [Tables.hasDocument] using hh
    simp only [Tables.putDocument, hh, Bool.false_eq_true, if_false, List.map_append, List.map_cons, List.map_nil]
    rw [List.nodup_append]
    refine ⟨h, by simp, fun a ha b hb => ?_⟩
    obtain ⟨r, hr, rfl⟩ := List.mem_map.1 ha
    rw [List.mem_singleton.1 hb]
    exact hn r hr

theorem find_putDocument {row : DocumentRow} (t : Tables) {id : String} (hne : row.id ≠ id) :
    ((t.putDocument row).documents.find? fun r => r.id = id) = t.documents.find? fun r => r.id = id := by
  rw [Tables.putDocument]
  split
  · let change (r : DocumentRow) : DocumentRow := if r.id = row.id then { row with created := r.created } else r
    have hother : ∀ r : DocumentRow, r.id ≠ row.id → change r = r := fun r hr => if_neg hr
    have hid : ∀ r : DocumentRow, (change r).id = r.id := by
      intro r
      by_cases hr : r.id = row.id
      · rw [show change r = { row with created := r.created } from if_pos hr, hr]
      · rw [hother r hr]
    have hkept : (t.documents.find? fun r => (change r).id = id) = t.documents.find? fun r => r.id = id := by
      simp only [hid]
    change List.find? _ (t.documents.map change) = _
    rw [List.find?_map]
    change Option.map change (t.documents.find? fun r => (change r).id = id) = _
    rw [hkept]
    cases hf : t.documents.find? fun r => r.id = id with
    | none => rfl
    | some r =>
      have hr : r.id = id := by simpa using List.find?_some hf
      rw [Option.map_some, hother r fun he => hne (he.symm.trans hr)]
  · rw [List.find?_append, List.find?_singleton, if_neg (by simpa using hne), Option.or_none]

/-- Putting a document in place does not change the others. -/
theorem document_put_of_ne {s s' : Store} {now : Time} {d : Document} {id : String} (h : put now d s = .ok s')
    (hne : d.id ≠ id) : (document id s').outcome = (document id s).outcome := by
  cases s with
  | memory m =>
    cases h
    simp only [document, Memory.document, Memory.put, Keyed.get?_put_of_ne _ _ hne]
  | table t =>
    obtain ⟨path, isOpen, tables⟩ := t
    cases isOpen with
    | false => cases h
    | true =>
      cases h
      have hrow : (DocumentRow.ofDocument now d).id ≠ id := hne
      simp only [document, Database.document, Database.reading, find_putDocument _ hrow]

/-- A sound store takes every document. -/
theorem put_outcome {s : Store} (h : s.Sound) (now : Time) (d : Document) :
    ∃ s', put now d s = .ok s' ∧ PutIn d.source s s' := by
  cases s with
  | memory m =>
    refine ⟨_, rfl, ⟨fun _ => rfl, rfl, fun _ h => h⟩, ⟨fun e he => ?_, Keyed.nodup_keys_put h.2⟩,
      fun y => ?_, fun id hne => document_put_of_ne (show put now d (memory m) = .ok _ from rfl) (Ne.symm hne)⟩
    · rcases (Keyed.mem_put_iff h.2).1 he with rfl | ⟨he, -⟩
      · rfl
      · exact h.1 e he
    · simp only [sources, Memory.put, List.mem_map, Keyed.mem_put_iff h.2]
      constructor
      · rintro ⟨e, rfl | ⟨he, hi⟩, rfl⟩
        · exact .inl rfl
        · exact .inr ⟨⟨e, he, rfl⟩, by rwa [← h.1 e he] at hi⟩
      · rintro (rfl | ⟨⟨e, he, rfl⟩, hi⟩)
        · exact ⟨_, .inl rfl, rfl⟩
        · exact ⟨e, .inr ⟨he, by rwa [← h.1 e he]⟩, rfl⟩
  | table t =>
    have hc : (t.tables.putDocument (DocumentRow.ofDocument now d)).chunks = t.tables.chunks := by
      simp only [Tables.putDocument]
      split <;> rfl
    have hput : put now d (.table t) =
        .ok (.table { t with tables := t.tables.putDocument (DocumentRow.ofDocument now d) }) := by
      simp only [put, Database.put, Database.writing, h.1, if_true]
      rfl
    refine ⟨_, hput, ⟨fun id => ?_, ?_, fun _ h => h⟩, ?_, ?_,
      fun id hne => document_put_of_ne hput (Ne.symm hne)⟩
    · simp only [piecesOf, hc]
    · simp only [chunkIds, hc]
    · exact ⟨h.1, putDocument_ids _ _ h.2.1, by simpa only [hc] using h.2.2⟩
    · exact putDocument_sources _ _

/-! Changing chunks. -/

theorem mapM_ofChunk {now : Time} {id : String} {cs : List Chunk} {rows : List ChunkRow}
    (h : cs.mapM (ChunkRow.ofChunk now id) = .ok rows) :
    List.Forall₂ (fun c r => ChunkRow.ofChunk now id c = .ok r) cs rows := by
  induction cs generalizing rows with
  | nil =>
    cases h
    exact .nil
  | cons c cs ih =>
    rw [List.mapM_cons] at h
    obtain ⟨r, hc, h⟩ := bind_eq_ok.1 h
    obtain ⟨rs, hs, h⟩ := bind_eq_ok.1 h
    cases h
    exact .cons hc (ih hs)

/-- Rows are added in order behind the ones that are there, and nothing else changes. -/
theorem addChunks_eq {id : String} {rows : List ChunkRow} {t t' : Tables} (h : t.addChunks id rows = .ok t') :
    t' = { t with chunks := t.chunks ++ rows } := by
  induction rows generalizing t with
  | nil =>
    cases h
    simp
  | cons r rows ih =>
    rw [Tables.addChunks] at h
    split at h
    · cases h
    · split at h
      · cases h
      · rw [ih h]
        simp

/-- Rows with ids of their own and indexes that fit are all added. -/
theorem addChunks_ok (id : String) {rows : List ChunkRow} {t : Tables} (hf : ∀ r ∈ rows, fitsColumn r.index = true)
    (hn : (rows.map ChunkRow.id).Nodup) (hd : ∀ r ∈ rows, ∀ c ∈ t.chunks, c.id ≠ r.id) :
    ∃ t', t.addChunks id rows = .ok t' := by
  induction rows generalizing t with
  | nil => exact ⟨t, rfl⟩
  | cons r rows ih =>
    rw [List.map_cons, List.nodup_cons] at hn
    have hr : ¬ t.chunks.any (fun c => c.id = r.id) = true := by simpa using hd r List.mem_cons_self
    rw [Tables.addChunks, if_neg (by simp [hf r List.mem_cons_self]), if_neg hr]
    refine ih (fun r' hr' => hf r' (List.mem_cons_of_mem r hr')) hn.2 fun r' hr' c hc => ?_
    rcases List.mem_append.1 hc with hc | hc
    · exact hd r' (List.mem_cons_of_mem r hr') c hc
    · rw [List.mem_singleton.1 hc]
      exact fun he => hn.1 (he ▸ List.mem_map_of_mem hr')

structure Replaced (id : String) (cs : List Chunk) (s s' : Store) : Prop where
  sound : s'.Sound
  sources : s'.sources = s.sources
  own : s'.piecesOf id = (Memory.byIndex cs).map Chunk.piece
  others : ∀ other, other ≠ id → s'.piecesOf other = s.piecesOf other
  ids : ∀ i ∈ s'.chunkIds, i ∈ s.chunkIds ∨ i ∈ cs.map Chunk.id
  room : ∀ n, s.HasRoom n → s'.HasRoom n

theorem sorted_pieces {α : Type} (f : α → Piece) (xs : List α) :
    (xs.mergeSort fun a b => (f a).index ≤ (f b).index).map f =
      (xs.map f).mergeSort fun a b => a.index ≤ b.index :=
  List.map_mergeSort fun _ _ _ _ => rfl

theorem byIndex_pieces {cs : List Chunk} {rows : List ChunkRow} (h : rows.map ChunkRow.piece = cs.map Chunk.piece) :
    (rows.mergeSort fun a b => a.index ≤ b.index).map ChunkRow.piece = (Memory.byIndex cs).map Chunk.piece :=
  calc
    _ = (rows.map ChunkRow.piece).mergeSort fun a b => a.index ≤ b.index := sorted_pieces ChunkRow.piece rows
    _ = (cs.map Chunk.piece).mergeSort fun a b => a.index ≤ b.index := by rw [h]
    _ = _ := (sorted_pieces Chunk.piece cs).symm

theorem ofChunk_rows {now : Time} {id : String} {cs : List Chunk} {rows : List ChunkRow}
    (h : cs.mapM (ChunkRow.ofChunk now id) = .ok rows) :
    rows.map ChunkRow.piece = cs.map Chunk.piece ∧ rows.map ChunkRow.id = cs.map Chunk.id ∧
      ∀ r ∈ rows, r.document = id ∧ r.piece.vector.isSome := by
  have hf := mapM_ofChunk h
  clear h
  induction hf with
  | nil => simp
  | cons hc _ ih =>
    obtain ⟨hp, hd, hi, hv⟩ := ChunkRow.ofChunk_piece hc
    refine ⟨by rw [List.map_cons, List.map_cons, hp, ih.1], by rw [List.map_cons, List.map_cons, hi, ih.2.1], ?_⟩
    rintro r (_ | ⟨_, hr⟩)
    · exact ⟨hd, hp ▸ hv⟩
    · exact ih.2.2 r hr

/-- The rows of a document whose rows were dropped and added anew are the new ones. -/
theorem rowsOf_replaced {t : Tables} {id : String} {rows : List ChunkRow} (h : ∀ r ∈ rows, r.document = id) :
    ((t.dropChunks id).chunks ++ rows).filter (fun r => r.document = id) = rows := by
  have hnone : (t.dropChunks id).chunks.filter (fun r => r.document = id) = [] := by
    simp [Tables.dropChunks, List.filter_eq_nil_iff]
  rw [List.filter_append, hnone, List.nil_append, List.filter_eq_self.2 fun r hr => by simpa using h r hr]

theorem rowsOf_dropped {t : Tables} {id other : String} (ho : other ≠ id) :
    (t.dropChunks id).chunks.filter (fun r => r.document = other) = t.chunks.filter fun r => r.document = other := by
  rw [Tables.dropChunks, List.filter_filter]
  refine List.filter_congr fun r _ => ?_
  by_cases hro : r.document = other <;> simp [hro, ho]

/-- Those of another document are as they were. -/
theorem rowsOf_others {t : Tables} {id other : String} {rows : List ChunkRow} (h : ∀ r ∈ rows, r.document = id)
    (ho : other ≠ id) :
    ((t.dropChunks id).chunks ++ rows).filter (fun r => r.document = other) =
      t.chunks.filter fun r => r.document = other := by
  have hnone : rows.filter (fun r => r.document = other) = [] := by
    rw [List.filter_eq_nil_iff]
    intro r hr
    rw [h r hr]
    simpa using Ne.symm ho
  rw [List.filter_append, hnone, List.append_nil, rowsOf_dropped ho]

theorem memory_replace_ids {m m' : Memory} {id : String} {cs : List Chunk} (hr : m.replace id cs = .ok m') :
    ∀ i ∈ (memory m').chunkIds, i ∈ (memory m).chunkIds ∨ i ∈ cs.map Chunk.id := by
  intro i hi
  rw [Memory.replace] at hr
  split at hr
  · cases hr
    obtain ⟨e, he, hc⟩ := List.mem_flatMap.1 hi
    dsimp only at he
    split at he
    · exact .inl (List.mem_flatMap.2 ⟨e, List.mem_of_mem_filter he, hc⟩)
    · rcases Keyed.mem_put he with rfl | he
      · obtain ⟨c, hm, rfl⟩ := List.mem_map.1 hc
        exact .inr (List.mem_map_of_mem (List.mem_mergeSort.1 hm))
      · exact .inl (List.mem_flatMap.2 ⟨e, he, hc⟩)
  · cases hr

theorem memory_replaced {m m' : Memory} {id : String} {cs : List Chunk} (h : (memory m).Sound)
    (hr : m.replace id cs = .ok m') : Replaced id cs (memory m) (memory m') := by
  have hids := memory_replace_ids hr
  simp only [Memory.replace] at hr
  split at hr
  · cases hr
    refine ⟨h, rfl, ?_, fun other ho => ?_, hids, fun _ h => h⟩
    · cases cs with
      | nil => simp [piecesOf, Memory.chunksOf, Keyed.get?_erase_self, Memory.byIndex]
      | cons c cs => simp [piecesOf, Memory.chunksOf, Keyed.get?_put_self]
    · cases cs with
      | nil => simp [piecesOf, Memory.chunksOf, Keyed.get?_erase_of_ne _ (Ne.symm ho)]
      | cons c cs => simp [piecesOf, Memory.chunksOf, Keyed.get?_put_of_ne _ _ (Ne.symm ho)]
  · cases hr

/-- A database that takes chunks for a document drops its rows and adds the rows of the chunks behind the others. -/
theorem database_replace_eq_ok {d d' : Database} {now : Time} {id : String} {cs : List Chunk}
    (hr : d.replace now id cs = .ok d') :
    d.isOpen = true ∧ ∃ rows : List ChunkRow, rows.map ChunkRow.piece = cs.map Chunk.piece ∧
      rows.map ChunkRow.id = cs.map Chunk.id ∧ (∀ r ∈ rows, r.document = id ∧ r.piece.vector.isSome) ∧
      d' = { d with tables := { d.tables.dropChunks id with chunks := (d.tables.dropChunks id).chunks ++ rows } } := by
  rw [Database.replace] at hr
  obtain ⟨rows, hm, hr⟩ := bind_eq_ok.1 hr
  obtain ⟨hp, hi, hrows⟩ := ofChunk_rows hm
  cases hopen : d.isOpen with
  | false => simp [hopen, bind, Except.bind] at hr
  | true =>
    simp only [hopen, Bool.not_true, Bool.false_eq_true, if_false] at hr
    split at hr
    · cases hr
    · obtain ⟨t, ha, hr⟩ := bind_eq_ok.1 hr
      cases hr
      exact ⟨rfl, rows, hp, hi, hrows, by rw [addChunks_eq ha]⟩

theorem database_replace_ids {d d' : Database} {now : Time} {id : String} {cs : List Chunk}
    (hr : d.replace now id cs = .ok d') :
    ∀ i ∈ (table d').chunkIds, i ∈ (table d).chunkIds ∨ i ∈ cs.map Chunk.id := by
  obtain ⟨-, rows, -, hids, -, rfl⟩ := database_replace_eq_ok hr
  intro i hi
  simp only [chunkIds, Tables.dropChunks, List.map_append, List.mem_append, hids] at hi
  refine hi.imp (fun hi => ?_) fun hi => hi
  obtain ⟨r, hr, rfl⟩ := List.mem_map.1 hi
  exact List.mem_map_of_mem (List.mem_of_mem_filter hr)

theorem database_replaced {d d' : Database} {now : Time} {id : String} {cs : List Chunk} (h : (table d).Sound)
    (hr : d.replace now id cs = .ok d') : Replaced id cs (table d) (table d') := by
  have hids := database_replace_ids hr
  obtain ⟨-, rows, hp, -, hrows, rfl⟩ := database_replace_eq_ok hr
  refine ⟨⟨h.1, h.2.1, fun r hr => ?_⟩, rfl, ?_, fun other ho => ?_, hids, fun _ h => h⟩
  · rcases List.mem_append.1 hr with hr | hr
    · exact h.2.2 r (List.mem_of_mem_filter hr)
    · exact (hrows r hr).2
  · rw [piecesOf, rowsOf_replaced fun r hr => (hrows r hr).1]
    exact byIndex_pieces hp
  · simp only [piecesOf, rowsOf_others (fun r hr => (hrows r hr).1) ho]

/-- A store that takes chunks is a memory that takes them or a database that does. -/
theorem replace_cases {s s' : Store} {now : Time} {id : String} {cs : List Chunk} (h : replace now id cs s = .ok s') :
    (∃ m m', s = .memory m ∧ s' = .memory m' ∧ m.replace id cs = .ok m') ∨
      ∃ d d', s = .table d ∧ s' = .table d' ∧ d.replace now id cs = .ok d' := by
  cases s with
  | memory m =>
    simp only [replace] at h
    cases hm : m.replace id cs with
    | error e => simp [hm, Except.map] at h
    | ok m' =>
      simp only [hm, Except.map, Except.ok.injEq] at h
      exact .inl ⟨m, m', rfl, h.symm, hm⟩
  | table d =>
    simp only [replace] at h
    cases hd : d.replace now id cs with
    | error e => simp [hd, Except.map] at h
    | ok d' =>
      simp only [hd, Except.map, Except.ok.injEq] at h
      exact .inr ⟨d, d', rfl, h.symm, hd⟩

/-- Whatever replacing the chunks of a document changes is those chunks. -/
theorem replace_outcome {s s' : Store} (h : s.Sound) {now : Time} {id : String} {cs : List Chunk}
    (hr : replace now id cs s = .ok s') : Replaced id cs s s' := by
  rcases replace_cases hr with ⟨m, m', rfl, rfl, hm⟩ | ⟨d, d', rfl, rfl, hd⟩
  · exact memory_replaced h hm
  · exact database_replaced h hd

/-- The ids of chunks after a replacement are old ones or those of the new chunks. -/
theorem chunkIds_replace {s s' : Store} {now : Time} {id : String} {cs : List Chunk}
    (h : replace now id cs s = .ok s') : ∀ i ∈ s'.chunkIds, i ∈ s.chunkIds ∨ i ∈ cs.map Chunk.id := by
  rcases replace_cases h with ⟨m, m', rfl, rfl, hm⟩ | ⟨d, d', rfl, rfl, hd⟩
  · exact memory_replace_ids hm
  · exact database_replace_ids hd

theorem hasRoom_replace {s s' : Store} {now : Time} {id : String} {cs : List Chunk} (h : replace now id cs s = .ok s')
    (n : Nat) : s'.HasRoom n ↔ s.HasRoom n := by
  rcases replace_cases h with ⟨m, m', rfl, rfl, -⟩ | ⟨d, d', rfl, rfl, -⟩
  · exact .rfl
  · exact .rfl

theorem ofChunk_ok (now : Time) (id : String) {cs : List Chunk} (h : ∀ c ∈ cs, c.vector.isSome) :
    ∃ rows, cs.mapM (ChunkRow.ofChunk now id) = .ok rows ∧ rows.map ChunkRow.index = cs.map Chunk.index := by
  induction cs with
  | nil => exact ⟨[], rfl, rfl⟩
  | cons c cs ih =>
    obtain ⟨v, hv⟩ := Option.isSome_iff_exists.1 (h c List.mem_cons_self)
    obtain ⟨rows, hr, hi⟩ := ih fun c' hc' => h c' (List.mem_cons_of_mem c hc')
    refine ⟨_, by simp only [List.mapM_cons, ChunkRow.ofChunk, hv, hr]; rfl, by simp [hi]⟩

theorem hasDocument_of_mem {d : Database} {x : Source} (h : x ∈ (table d).sources) :
    d.tables.hasDocument x.id = true := by
  obtain ⟨r, hr, rfl⟩ := List.mem_map.1 h
  exact List.any_eq_true.2 ⟨r, hr, by simp [DocumentRow.source]⟩

/-- Chunks with vectors, numbers that there is room for and new ids can take the place of a stored
document's chunks. -/
theorem replace_ok {s : Store} (h : s.Sound) (now : Time) {x : Source} (hx : x ∈ s.sources) {cs : List Chunk}
    {n : Nat}
    (hroom : s.HasRoom n) (hv : ∀ c ∈ cs, c.vector.isSome) (hi : ∀ c ∈ cs, 0 ≤ c.index ∧ c.index < n)
    (hn : (cs.map Chunk.id).Nodup) (hd : ∀ c ∈ cs, c.id ∉ s.chunkIds) :
    ∃ s', replace now x.id cs s = .ok s' := by
  cases s with
  | memory m =>
    obtain ⟨e, he, rfl⟩ := List.mem_map.1 hx
    have hk : Keyed.has e.2.source.id m.documents = true :=
      Keyed.has_iff.2 (by rw [show e.2.source.id = e.1 from h.1 e he]; exact List.mem_map_of_mem he)
    exact ⟨_, by simp only [replace, Memory.replace, hk, if_true]; rfl⟩
  | table d =>
    obtain ⟨rows, hm, hri⟩ := ofChunk_ok now x.id hv
    have hids := (ofChunk_rows hm).2.1
    have hfit : ∀ r ∈ rows, fitsColumn r.index = true := by
      intro r hr
      obtain ⟨c, hc, hci⟩ := List.mem_map.1 (hri ▸ List.mem_map_of_mem hr)
      obtain ⟨h0, h1⟩ := hi c hc
      have hle : n ≤ Number.twoTo 63 := hroom
      simp only [fitsColumn, Bool.and_eq_true, decide_eq_true_eq]
      omega
    have hfree : ∀ r ∈ rows, ∀ c ∈ (d.tables.dropChunks x.id).chunks, c.id ≠ r.id := by
      intro r hr c hc he
      obtain ⟨c', hc', hci⟩ := List.mem_map.1 (hids ▸ List.mem_map_of_mem (f := ChunkRow.id) hr)
      refine hd c' hc' (hci ▸ he ▸ ?_)
      exact List.mem_map_of_mem (List.mem_of_mem_filter hc)
    obtain ⟨t, ht⟩ := addChunks_ok x.id hfit (hids ▸ hn) hfree
    refine ⟨.table { d with tables := t }, ?_⟩
    simp only [replace, Database.replace, hm, h.1, hasDocument_of_mem hx, Bool.not_true, Bool.false_eq_true, if_false,
      ht, bind, Except.bind, pure, Except.pure, Except.map]

/-- Rows whose vectors can be read are read, each as what it holds. -/
theorem each_chunkRow (rows : List ChunkRow) (h : ∀ r ∈ rows, r.piece.vector.isSome) :
    ∃ cs, (Reading.each ChunkRow.read rows).outcome = .ok cs ∧ cs.map Chunk.piece = rows.map ChunkRow.piece := by
  have hread : ∀ r ∈ rows, ∃ c, r.read.outcome = .ok c ∧ c.piece = r.piece := fun r hr =>
    let ⟨c, hc, hp, _⟩ := r.read_outcome (h r hr)
    ⟨c, hc, hp⟩
  choose! g hg hgp using hread
  refine ⟨_, Reading.outcome_each hg, ?_⟩
  rw [List.map_map]
  exact List.map_congr_left hgp

/-- The chunks that are listed of a document are the ones that it holds. -/
theorem chunksOf_outcome {s : Store} (h : s.Sound) (id : String) :
    ∃ cs, (chunksOf id s).outcome = .ok cs ∧ cs.map Chunk.piece = s.piecesOf id := by
  cases s with
  | memory m => exact ⟨m.chunksOf id, rfl, rfl⟩
  | table d =>
    obtain ⟨cs, hcs, hp⟩ := each_chunkRow
      ((d.tables.chunks.filter fun r => r.document = id).mergeSort fun a b => a.index ≤ b.index)
      fun r hr => h.2.2 r (List.mem_of_mem_filter (List.mem_mergeSort.1 hr))
    exact ⟨cs, by simpa only [chunksOf, Database.chunksOf, Database.reading, h.1, if_true] using hcs, hp⟩

theorem ids_of_each {rows : List ChunkRow} {cs : List Chunk} (h : (Reading.each ChunkRow.read rows).outcome = .ok cs) :
    cs.map Chunk.id = rows.map ChunkRow.id := by
  induction rows generalizing cs with
  | nil =>
    cases h
    rfl
  | cons r rows ih =>
    simp only [Reading.each, ChunkRow.read, Reading.outcome_bind, Reading.outcome_pure, bind_eq_ok] at h
    obtain ⟨c, ⟨v, -, t, -, hc⟩, cs, hcs, h⟩ := h
    cases hc
    cases h
    rw [List.map_cons, List.map_cons, ih hcs]

/-- The ids that a database lists for a document are those of its rows. -/
theorem ids_of_table {t : Database} {d : String} {cs : List Chunk} (h : (chunksOf d (.table t)).outcome = .ok cs) :
    (cs.map Chunk.id).Perm ((t.tables.chunks.filter fun r => r.document = d).map ChunkRow.id) := by
  simp only [chunksOf, Database.chunksOf, Database.reading] at h
  split at h
  · exact ids_of_each h ▸ (List.mergeSort_perm _ _).map _
  · cases h

theorem nodup_chunksOf {s : Store} (hn : s.chunkIds.Nodup) {d : String} {cs : List Chunk}
    (h : (chunksOf d s).outcome = .ok cs) : (cs.map Chunk.id).Nodup := by
  cases s with
  | memory m =>
    cases h
    rw [Memory.chunksOf]
    cases hd : Keyed.get? d m.chunks with
    | none => exact List.nodup_nil
    | some cs => exact (List.nodup_flatMap.1 hn).1 (d, cs) (Keyed.mem_of_get?_eq_some hd)
  | table t => exact (ids_of_table h).nodup_iff.2 ((List.filter_sublist.map _).nodup hn)

/-- Where no two chunks have the same id, no chunk is listed for two documents. -/
theorem chunksOf_apart {s : Store} (hn : s.chunkIds.Nodup) {d d' : String} {cs cs' : List Chunk}
    (h : (chunksOf d s).outcome = .ok cs) (h' : (chunksOf d' s).outcome = .ok cs') (hne : d ≠ d') {c c' : Chunk}
    (hc : c ∈ cs) (hc' : c' ∈ cs') : c.id ≠ c'.id := by
  cases s with
  | memory m =>
    cases h
    cases h'
    rw [Memory.chunksOf] at hc hc'
    cases hd : Keyed.get? d m.chunks with
    | none => simp [hd] at hc
    | some cs =>
      cases hd' : Keyed.get? d' m.chunks with
      | none => simp [hd'] at hc'
      | some cs' =>
        rw [hd] at hc
        rw [hd'] at hc'
        have hsymm : Std.Symm (Function.onFun List.Disjoint fun e : String × List Chunk => e.2.map Chunk.id) :=
          ⟨fun _ _ h => List.Disjoint.symm h⟩
        have hdisjoint := (List.nodup_flatMap.1 hn).2.forall (Keyed.mem_of_get?_eq_some hd)
          (Keyed.mem_of_get?_eq_some hd') fun he => hne (congrArg Prod.fst he)
        exact fun he => hdisjoint (List.mem_map_of_mem hc) (he ▸ List.mem_map_of_mem hc')
  | table t =>
    intro he
    obtain ⟨r, hr, hri⟩ := List.mem_map.1 ((ids_of_table h).mem_iff.1 (List.mem_map_of_mem hc))
    obtain ⟨r', hr', hri'⟩ := List.mem_map.1 ((ids_of_table h').mem_iff.1 (List.mem_map_of_mem hc'))
    obtain ⟨hr, hd⟩ := List.mem_filter.1 hr
    obtain ⟨hr', hd'⟩ := List.mem_filter.1 hr'
    obtain rfl := List.inj_on_of_nodup_map hn hr hr' (hri.trans (he.trans hri'.symm))
    exact hne ((of_decide_eq_true hd).symm.trans (of_decide_eq_true hd'))

/-! Taking documents and chunks out. -/

theorem delete_outcome {s : Store} (h : s.Sound) {x : Source} (hx : x ∈ s.sources) :
    ∃ s', delete x.id s = .ok s' ∧ s'.Sound ∧ ∀ y, y ∈ s'.sources ↔ y ∈ s.sources ∧ y.id ≠ x.id := by
  cases s with
  | memory m =>
    obtain ⟨e, he, rfl⟩ := List.mem_map.1 hx
    have hk : Keyed.has e.2.source.id m.documents = true :=
      Keyed.has_iff.2 (by rw [show e.2.source.id = e.1 from h.1 e he]; exact List.mem_map_of_mem he)
    refine ⟨.memory { m with
        documents := Keyed.erase e.2.source.id m.documents, chunks := Keyed.erase e.2.source.id m.chunks }, ?_,
          ⟨?_, ?_⟩, ?_⟩
    · simp only [delete, Memory.delete, hk, if_true]
      rfl
    · exact fun d hd => h.1 d (List.mem_of_mem_filter hd)
    · exact Keyed.nodup_keys_erase h.2
    · intro y
      simp only [sources, Keyed.erase, List.mem_map, List.mem_filter, decide_eq_true_eq]
      constructor
      · rintro ⟨d, ⟨hd, hne⟩, rfl⟩
        exact ⟨⟨d, hd, rfl⟩, by rwa [show d.2.source.id = d.1 from h.1 d hd]⟩
      · rintro ⟨⟨d, hd, rfl⟩, hne⟩
        exact ⟨d, ⟨hd, by rwa [← show d.2.source.id = d.1 from h.1 d hd]⟩, rfl⟩
  | table d =>
    refine ⟨.table { d with tables := d.tables.dropDocument x.id }, ?_, ⟨h.1, ?_, ?_⟩, ?_⟩
    · simp only [delete, Database.delete, Database.writing, h.1, hasDocument_of_mem hx, if_true]
      rfl
    · exact h.2.1.sublist (List.filter_sublist.map _)
    · exact fun r hr => h.2.2 r (List.mem_of_mem_filter hr)
    · intro y
      simp only [sources, Tables.dropDocument, List.mem_map, List.mem_filter, bne_iff_ne, ne_eq]
      constructor
      · rintro ⟨r, ⟨hr, hne⟩, rfl⟩
        exact ⟨⟨r, hr, rfl⟩, hne⟩
      · rintro ⟨⟨r, hr, rfl⟩, hne⟩
        exact ⟨r, ⟨hr, hne⟩, rfl⟩

theorem deleteChunks_outcome {s : Store} (h : s.Sound) (id : String) :
    ∃ s', deleteChunks id s = .ok s' ∧ s'.Sound ∧ s'.sources = s.sources := by
  cases s with
  | memory m => exact ⟨_, rfl, h, rfl⟩
  | table d =>
    refine ⟨.table { d with tables := d.tables.dropChunks id }, ?_, ⟨h.1, h.2.1, ?_⟩, rfl⟩
    · simp only [deleteChunks, Database.deleteChunks, Database.writing, h.1, if_true]
      rfl
    · exact fun r hr => h.2.2 r (List.mem_of_mem_filter hr)

/-- No two documents have the same file. -/
def PathsDiffer (s : Store) : Prop := ∀ x ∈ s.sources, ∀ y ∈ s.sources, x.path = y.path → x.id = y.id

/-- When a document is put in place, paths still differ exactly if no other document has its path. -/
theorem pathsDiffer_iff {x : Source} {s s' : Store}
    (h : ∀ y, y ∈ s'.sources ↔ y = x ∨ y ∈ s.sources ∧ y.id ≠ x.id) (hs : s.PathsDiffer) :
    s'.PathsDiffer ↔ ∀ y ∈ s.sources, y.id ≠ x.id → y.path ≠ x.path := by
  constructor
  · intro hd y hy hne he
    exact hne (hd y ((h y).2 (.inr ⟨hy, hne⟩)) x ((h x).2 (.inl rfl)) he)
  · intro hd y hy z hz he
    rcases (h y).1 hy with rfl | ⟨hy, hyi⟩
    · rcases (h z).1 hz with rfl | ⟨hz, hzi⟩
      · rfl
      · exact absurd he.symm (hd z hz hzi)
    · rcases (h z).1 hz with rfl | ⟨hz, hzi⟩
      · exact absurd he (hd y hy hyi)
      · exact hs y hy z hz he

end Store

end Compendium
