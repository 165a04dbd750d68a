import Compendium.Proofs.Store.Agreement

/-!
Replacing the chunks of a document. The old chunks are dropped before the new ones are added, and a refusal can
come in between; whichever it is, the store stays as it was. What goes through changes those chunks alone.
-/
namespace Compendium

/-- Two of some chunks share an id, or one has the id of a chunk of another document. -/
def Tables.Clash (id : String) (cs : List Chunk) (t : Tables) : Prop :=
  ¬(cs.map Chunk.id).Nodup ∨ ∃ r ∈ t.chunks, r.document ≠ id ∧ r.id ∈ cs.map Chunk.id

instance (id : String) (cs : List Chunk) (t : Tables) :
    Decidable (t.Clash id cs) := inferInstanceAs (Decidable (_ ∨ _))

def Call.PassesChunksOver : Call → Prop
  | .document _ | .atPath _ | .ids | .documentsOf _ | .categories | .documentCount | .logsOf _ _ _ => True
  | _ => False

namespace Store

/-- Why a store refuses chunks for a document, if it does: the checks in their order. -/
def refusal? (id : String) (cs : List Chunk) : Store → Option Fault
  | .memory m => if Keyed.has id m.documents then none else some (.unknownDocument id)
  | .table d =>
    if ∃ c ∈ cs, c.vector.isNone then some (.store .noVector)
    else if d.isOpen = false then some (.store (.replacing id .closed))
    else if d.tables.hasDocument id = false then some (.unknownDocument id)
    else if d.tables.Clash id cs then some (.store (.replacing id (.duplicate "knowledge_embeddings" "id")))
    else none

def givenTo (now : Time) (id : String) (c : Chunk) : Chunk :=
  { c with document := id, created := some (c.created.getD now) }

/-- A chunk as it is listed after it was given for a document: a database notes the document and a time, and keeps
of the time what is written of it. -/
def asKept (now : Time) (id : String) (c : Chunk) : Store → Chunk
  | .memory _ => c
  | .table _ => (givenTo now id c).kept

/-- The chunks of one document are others, and nothing else has changed. -/
structure Exchanged (now : Time) (id : String) (cs : List Chunk) (s s' : Store) : Prop where
  own : (chunksOf id s').outcome = .ok (Memory.byIndex (cs.map fun c => s.asKept now id c))
  others : ∀ other, other ≠ id → (chunksOf other s').outcome = (chunksOf other s).outcome
  rest : ∀ call : Call, call.PassesChunksOver → ∀ time, (s'.run time call).1 = (s.run time call).1

/-! In memory. -/

/-- Memory keeps the chunks as they are given, in the order of their indexes. -/
theorem memory_exchanged {m m' : Memory} (now : Time) {id : String} {cs : List Chunk} (h : m.replace id cs = .ok m') :
    Exchanged now id cs (.memory m) (.memory m') := by
  rw [Memory.replace] at h
  split at h
  · cases h
    have hget (other : String) : Keyed.get? other (if cs.isEmpty then Keyed.erase id m.chunks
        else Keyed.put id (Memory.byIndex cs) m.chunks) =
          if other = id then (if cs.isEmpty then none else some (Memory.byIndex cs))
          else Keyed.get? other m.chunks := by
      by_cases ho : other = id
      · subst ho
        split <;> simp [Keyed.get?_erase_self, Keyed.get?_put_self]
      · rw [if_neg ho]
        split
        · exact Keyed.get?_erase_of_ne _ (Ne.symm ho)
        · exact Keyed.get?_put_of_ne _ _ (Ne.symm ho)
    refine ⟨?_, fun other ho => ?_, fun call hc time => ?_⟩
    · change Except.ok ((Keyed.get? id _).getD []) = _
      rw [hget, if_pos rfl]
      cases cs <;> simp [asKept, Memory.byIndex]
    · change Except.ok ((Keyed.get? other _).getD []) = _
      rw [hget, if_neg ho]
      rfl
    · cases call <;> first | rfl | exact hc.elim
  · cases h

/-! In a database. -/

def rowsFor (now : Time) (id : String) (cs : List Chunk) : List ChunkRow :=
  (cs.map (givenTo now id)).map Chunk.row

theorem mapM_ofChunk_eq (now : Time) (id : String) {cs : List Chunk} (h : ∀ c ∈ cs, c.vector.isSome) :
    cs.mapM (ChunkRow.ofChunk now id) = .ok (rowsFor now id cs) := by
  induction cs with
  | nil => rfl
  | cons c cs ih =>
    obtain ⟨hc, hcs⟩ := List.forall_mem_cons.1 h
    obtain ⟨v, hv⟩ := Option.isSome_iff_exists.1 hc
    have hrow : ChunkRow.ofChunk now id c = .ok (givenTo now id c).row := by
      simp [ChunkRow.ofChunk, givenTo, Chunk.row, hv]
    rw [List.mapM_cons, hrow, ih hcs]
    rfl

theorem mapM_ofChunk_refused (now : Time) (id : String) {cs : List Chunk} (h : ∃ c ∈ cs, c.vector.isNone) :
    cs.mapM (ChunkRow.ofChunk now id) = .error (.store .noVector) := by
  induction cs with
  | nil => simp at h
  | cons c cs ih =>
    rw [List.mapM_cons]
    cases hv : c.vector with
    | none => simp [ChunkRow.ofChunk, hv, bind, Except.bind]
    | some v =>
      have hrest : ∃ c ∈ cs, c.vector.isNone := by simpa [hv] using h
      simp [ChunkRow.ofChunk, hv, ih hrest, bind, Except.bind]

/-- Rows of which one bears an id that is taken are refused, though some of them were added before. -/
theorem addChunks_refused (id : String) {rows : List ChunkRow} {t : Tables}
    (hf : ∀ r ∈ rows, fitsColumn r.index = true)
    (h : ¬(rows.map ChunkRow.id).Nodup ∨ ∃ c ∈ t.chunks, c.id ∈ rows.map ChunkRow.id) :
    t.addChunks id rows = .error (.store (.replacing id (.duplicate "knowledge_embeddings" "id"))) := by
  induction rows generalizing t with
  | nil => simp at h
  | cons r rows ih =>
    obtain ⟨hr, hrows⟩ := List.forall_mem_cons.1 hf
    rw [Tables.addChunks, if_neg (by simp [hr])]
    split
    · rfl
    next hfree =>
      have hfree : ∀ c ∈ t.chunks, c.id ≠ r.id := by simpa using hfree
      refine ih hrows ?_
      rw [List.map_cons, List.nodup_cons, not_and_or, not_not] at h
      rcases h with (hr | hn) | ⟨c, hc, hid⟩
      · exact .inr ⟨r, by simp, hr⟩
      · exact .inl hn
      · exact .inr ⟨c, by simp [hc], (List.mem_cons.1 hid).resolve_left (hfree c hc)⟩

/-- Chunks that all have vectors meet the connection first, then the documents, then the other chunks. -/
theorem database_replace_eq (now : Time) (id : String) {cs : List Chunk} (h : ∀ c ∈ cs, c.vector.isSome)
    (d : Database) : d.replace now id cs =
      if d.isOpen = false then .error (.store (.replacing id .closed))
      else if d.tables.hasDocument id = false then .error (.unknownDocument id)
      else ((d.tables.dropChunks id).addChunks id (rowsFor now id cs)).map fun t => { d with tables := t } := by
  obtain ⟨path, isOpen, tables⟩ := d
  rw [Database.replace, mapM_ofChunk_eq now id h]
  cases isOpen with
  | false => rfl
  | true =>
    simp only [rowsFor, Bool.not_true, Bool.false_eq_true, if_false, bind, Except.bind, pure, Except.pure]
    cases tables.hasDocument id with
    | false => rfl
    | true => cases (tables.dropChunks id).addChunks id _ <;> rfl

theorem fits_rowsFor (now : Time) (id : String) {cs : List Chunk} (h : ∀ c ∈ cs, fitsColumn c.index = true) :
    ∀ r ∈ rowsFor now id cs, fitsColumn r.index = true :=
  List.forall_mem_map.2 (List.forall_mem_map.2 h)

theorem ids_rowsFor (now : Time) (id : String) (cs : List Chunk) :
    (rowsFor now id cs).map ChunkRow.id = cs.map Chunk.id := by
  rw [rowsFor, List.map_map, List.map_map]
  rfl

/-- Ids clash if two new rows share one, or a new row has that of a row that stays. -/
theorem clash_iff (now : Time) (id : String) (cs : List Chunk) (t : Tables) :
    t.Clash id cs ↔ ¬((rowsFor now id cs).map ChunkRow.id).Nodup ∨
      ∃ r ∈ (t.dropChunks id).chunks, r.id ∈ (rowsFor now id cs).map ChunkRow.id := by
  rw [ids_rowsFor, Tables.Clash]
  simp [Tables.dropChunks, and_assoc]

/-- Whatever a store has against the chunks, it says so. -/
theorem replace_refused (now : Time) {id : String} {cs : List Chunk} (hfit : ∀ c ∈ cs, fitsColumn c.index = true)
    {s : Store} {e : Fault} (h : s.refusal? id cs = some e) : replace now id cs s = .error e := by
  cases s with
  | memory m =>
    simp only [refusal?] at h
    split at h
    · cases h
    next hm =>
      cases h
      rw [replace, Memory.replace, if_neg hm]
      rfl
  | table d =>
    rw [replace]
    simp only [refusal?] at h
    split at h
    next hnone =>
      cases h
      rw [Database.replace, mapM_ofChunk_refused now id hnone]
      rfl
    next hvectors =>
      rw [database_replace_eq now id (by simpa [Option.isSome_iff_ne_none] using hvectors)]
      split at h
      next hclosed =>
        cases h
        rw [if_pos hclosed]
        rfl
      next hopen =>
        rw [if_neg hopen]
        split at h
        next hunknown =>
          cases h
          rw [if_pos hunknown]
          rfl
        next hknown =>
          rw [if_neg hknown]
          split at h
          next hclash =>
            cases h
            rw [addChunks_refused id (fits_rowsFor now id hfit) ((clash_iff now id cs d.tables).1 hclash)]
            rfl
          next => cases h

/-- A database keeps what its rows hold of the chunks. -/
theorem database_exchanged {now : Time} {id : String} {cs : List Chunk}
    (htimes : ∀ c ∈ cs, (c.created.getD now).isValid = true) (hvectors : ∀ c ∈ cs, c.vector.isSome)
    {d : Database} (hopen : d.isOpen = true) {t : Tables}
    (h : (d.tables.dropChunks id).addChunks id (rowsFor now id cs) = .ok t) :
    Exchanged now id cs (.table d) (.table { d with tables := t }) := by
  have ht := addChunks_eq h
  subst ht
  have hrows : ∀ r ∈ rowsFor now id cs, r.document = id :=
    List.forall_mem_map.2 (List.forall_mem_map.2 fun _ _ => rfl)
  refine ⟨?_, fun other ho => ?_, fun call hc time => ?_⟩
  · have hread : ∀ c ∈ Memory.byIndex (cs.map (givenTo now id)), c.row.read.outcome = .ok c.kept := by
      intro k hk
      obtain ⟨c, hc, rfl⟩ := List.mem_map.1 (List.mem_mergeSort.1 hk)
      exact Chunk.Storable.read_row ⟨hvectors c hc, _, rfl, htimes c hc⟩
    have hkept : Memory.byIndex (cs.map fun c => (table d).asKept now id c) =
        (Memory.byIndex (cs.map (givenTo now id))).map Chunk.kept := by
      have hmap : (cs.map fun c => (table d).asKept now id c) = (cs.map (givenTo now id)).map Chunk.kept := by
        rw [List.map_map]
        rfl
      rw [hmap]
      exact (List.map_mergeSort (f := Chunk.kept) fun _ _ _ _ => rfl).symm
    simp only [chunksOf, Database.chunksOf, Database.reading, hopen, if_true, rowsOf_replaced hrows]
    rw [rowsFor, Mirrors.sort_chunkRows, hkept]
    exact each_rows hread
  · simp only [chunksOf, Database.chunksOf, Database.reading, rowsOf_others hrows ho]
  · cases call <;> first | rfl | exact hc.elim

/-- The chunks of one document are listed as some pieces, and nothing else has changed. -/
structure Listed (id : String) (ps : List Piece) (s s' : Store) : Prop where
  own : ∃ cs, (chunksOf id s').outcome = .ok cs ∧ cs.map Chunk.piece = ps
  others : ∀ other, other ≠ id → (chunksOf other s').outcome = (chunksOf other s).outcome
  rest : ∀ call : Call, call.PassesChunksOver → ∀ time, (s'.run time call).1 = (s.run time call).1

/-- Documents are read as before. -/
theorem Listed.document_eq {id : String} {ps : List Piece} {s s' : Store} (h : Listed id ps s s') (other : String) :
    (document other s').outcome = (document other s).outcome := by
  have hrest := h.rest (.document other) trivial (Time.ofUnixMicros 0)
  simp only [run, answering] at hrest
  cases hs : (document other s).outcome <;> cases hs' : (document other s').outcome <;> simp_all [Except.map]

theorem database_listed {now : Time} {id : String} {cs : List Chunk} {d d' : Database}
    (h : d.replace now id cs = .ok d') : Listed id ((Memory.byIndex cs).map Chunk.piece) (.table d) (.table d') := by
  obtain ⟨hopen, rows, hpieces, -, hrows, rfl⟩ := database_replace_eq_ok h
  have hown : ∀ r ∈ rows, r.document = id := fun r hr => (hrows r hr).1
  refine ⟨?_, fun other ho => ?_, fun call hc time => ?_⟩
  · obtain ⟨ks, hks, hp⟩ := each_chunkRow (rows.mergeSort fun a b => a.index ≤ b.index)
      fun r hr => (hrows r (List.mem_mergeSort.1 hr)).2
    refine ⟨ks, ?_, hp.trans (byIndex_pieces hpieces)⟩
    simpa only [chunksOf, Database.chunksOf, Database.reading, hopen, if_true, rowsOf_replaced hown] using hks
  · simp only [chunksOf, Database.chunksOf, Database.reading, rowsOf_others hown ho]
  · cases call <;> first | rfl | exact hc.elim

/-- Chunks that a store takes are listed as they are, whatever the times that they come with and whatever else it
holds. -/
theorem replace_listed {now : Time} {id : String} {cs : List Chunk} {s s' : Store} (h : replace now id cs s = .ok s') :
    Listed id ((Memory.byIndex cs).map Chunk.piece) s s' := by
  rcases replace_cases h with ⟨m, m', rfl, rfl, hm⟩ | ⟨d, d', rfl, rfl, hd⟩
  · obtain ⟨own, others, rest⟩ := memory_exchanged now hm
    exact ⟨⟨_, own, by simp only [asKept, List.map_id']⟩, others, rest⟩
  · exact database_listed hd

/-- A store that has nothing against the chunks takes them, and exchanges them alone. -/
theorem replace_accepted {now : Time} {id : String} {cs : List Chunk}
    (hfit : ∀ c ∈ cs, fitsColumn c.index = true) (htimes : ∀ c ∈ cs, (c.created.getD now).isValid = true)
    {s : Store} (h : s.refusal? id cs = none) : ∃ s', replace now id cs s = .ok s' ∧ Exchanged now id cs s s' := by
  cases s with
  | memory m =>
    have hm : Keyed.has id m.documents = true := by simpa [refusal?] using h
    obtain ⟨m', hr⟩ : ∃ m', m.replace id cs = .ok m' := ⟨_, if_pos hm⟩
    exact ⟨.memory m', by rw [replace, hr]; rfl, memory_exchanged now hr⟩
  | table d =>
    obtain ⟨hvectors, hopen, hknown, hclash⟩ : (∀ c ∈ cs, c.vector.isSome) ∧ d.isOpen = true ∧
        d.tables.hasDocument id = true ∧ ¬d.tables.Clash id cs := by
      simp only [refusal?] at h
      split at h <;> [cases h; skip]
      split at h <;> [cases h; skip]
      split at h <;> [cases h; skip]
      split at h <;> [cases h; skip]
      simp_all [Option.isSome_iff_ne_none]
    rw [clash_iff now, not_or, not_not] at hclash
    obtain ⟨t, ht⟩ := addChunks_ok id (fits_rowsFor now id hfit) hclash.1 fun r hr c hc he =>
      hclash.2 ⟨c, hc, he ▸ List.mem_map_of_mem hr⟩
    refine ⟨_, ?_, database_exchanged htimes hvectors hopen ht⟩
    rw [replace, database_replace_eq now id hvectors, if_neg (by simp [hopen]), if_neg (by simp [hknown]), ht]
    rfl

/-! New chunks. -/

/-- Rows with new ids of their own are added unless a number among them does not fit. -/
theorem addChunks_new (id : String) {rows : List ChunkRow} {t : Tables} (hn : (rows.map ChunkRow.id).Nodup)
    (hd : ∀ r ∈ rows, ∀ c ∈ t.chunks, c.id ≠ r.id) (hf : ¬∀ r ∈ rows, fitsColumn r.index = true) :
    t.addChunks id rows = .error .numberTooLarge := by
  induction rows generalizing t with
  | nil => exact absurd (fun _ => nofun) hf
  | cons r rows ih =>
    rw [List.map_cons, List.nodup_cons] at hn
    rw [List.forall_mem_cons, not_and] at hf
    rw [Tables.addChunks]
    by_cases hr : fitsColumn r.index = true
    · have hfree : ¬t.chunks.any (fun c => c.id = r.id) = true := by simpa using hd r List.mem_cons_self
      rw [if_neg (by simp [hr]), if_neg hfree]
      refine ih hn.2 (fun r' hr' c hc => ?_) (hf hr)
      rcases List.mem_append.1 hc with hc | hc
      · exact hd r' (List.mem_cons_of_mem r hr') c hc
      · rw [List.mem_singleton.1 hc]
        exact fun he => hn.1 (he ▸ List.mem_map_of_mem hr')
    · rw [if_pos (by simp [hr])]

theorem known_of_document {d : Database} {id : String} {x : Document} (h : (document id (.table d)).outcome = .ok x) :
    d.isOpen = true ∧ d.tables.hasDocument id = true := by
  simp only [document, Database.document, Database.reading] at h
  split at h
  next hopen =>
    split at h
    next r hr =>
      have hid : r.id = id := by simpa using List.find?_some hr
      exact ⟨hopen, List.any_eq_true.2 ⟨r, List.mem_of_find?_eq_some hr, decide_eq_true hid⟩⟩
    next => cases h
  next => cases h

theorem has_of_document {m : Memory} {id : String} {x : Document} (h : (document id (.memory m)).outcome = .ok x) :
    Keyed.has id m.documents = true := by
  simp only [document, Reading.outcome_ofExcept, Memory.document] at h
  split at h
  next hget => exact Keyed.has_iff.2 (List.mem_map_of_mem (Keyed.mem_of_get?_eq_some hget))
  next => cases h

/-- Chunks that are numbered from zero fit where there is room for as many. -/
theorem fits_iff_hasRoom {cs : List Chunk} (hi : cs.map Chunk.index = (List.range' 0 cs.length).map Int.ofNat)
    (d : Database) : (∀ c ∈ cs, fitsColumn c.index = true) ↔ (table d).HasRoom cs.length := by
  have hall : (∀ c ∈ cs, fitsColumn c.index = true) ↔ ∀ n < cs.length, fitsColumn (Int.ofNat n) = true := by
    rw [← List.forall_mem_map (f := Chunk.index) (P := fun i => fitsColumn i = true), hi, List.forall_mem_map]
    simp [List.mem_range'_1]
  rw [hall, HasRoom]
  constructor
  · intro h
    by_contra hlarge
    have := h (Number.twoTo 63) (by omega)
    simp [fitsColumn] at this
  · intro hroom n hn
    have hlarge : Int.ofNat n < (Number.twoTo 63 : Int) := Int.ofNat_lt.2 (Nat.lt_of_lt_of_le hn hroom)
    have hsmall : 0 ≤ Int.ofNat n := Int.natCast_nonneg n
    simp only [fitsColumn, Bool.and_eq_true, decide_eq_true_eq]
    constructor <;> omega

/-- New chunks of a stored document that are numbered from zero are taken where there is room for them. -/
theorem replace_new {s : Store} (now : Time) {id : String} {x : Document} (hx : (document id s).outcome = .ok x)
    {cs : List Chunk} (hv : ∀ c ∈ cs, c.vector.isSome)
    (hi : cs.map Chunk.index = (List.range' 0 cs.length).map Int.ofNat) (hn : (cs.map Chunk.id).Nodup)
    (hnew : ∀ c ∈ cs, c.id ∉ s.chunkIds) :
    (s.HasRoom cs.length → ∃ s', replace now id cs s = .ok s') ∧
      (¬s.HasRoom cs.length → replace now id cs s = .error .numberTooLarge) := by
  cases s with
  | memory m =>
    refine ⟨fun _ => ?_, fun h => absurd trivial h⟩
    rw [replace, Memory.replace, if_pos (has_of_document hx)]
    exact ⟨_, rfl⟩
  | table d =>
    obtain ⟨hopen, hknown⟩ := known_of_document hx
    have hids : ((rowsFor now id cs).map ChunkRow.id).Nodup := by rwa [ids_rowsFor]
    have hfree : ∀ r ∈ rowsFor now id cs, ∀ c ∈ (d.tables.dropChunks id).chunks, c.id ≠ r.id := by
      intro r hr c hc he
      obtain ⟨k, hk, hki⟩ := List.mem_map.1 (ids_rowsFor now id cs ▸ List.mem_map_of_mem (f := ChunkRow.id) hr)
      exact hnew k hk (hki ▸ he ▸ List.mem_map_of_mem (List.mem_of_mem_filter hc))
    rw [replace, database_replace_eq now id hv, if_neg (by simp [hopen]), if_neg (by simp [hknown]),
      ← fits_iff_hasRoom hi d]
    constructor
    · intro hfit
      obtain ⟨t, ht⟩ := addChunks_ok id (fits_rowsFor now id hfit) hids hfree
      rw [ht]
      exact ⟨_, rfl⟩
    · intro hlarge
      have hrows : ¬∀ r ∈ rowsFor now id cs, fitsColumn r.index = true := fun h =>
        hlarge (List.forall_mem_map.1 (List.forall_mem_map.1 h))
      rw [addChunks_new id hids hfree hrows]
      rfl

/-- Replacing chunks either goes through or leaves the store as it was, and it goes through unless the store has
something against them: a chunk without vector, a closed connection, a document that is not stored, or an id that
is taken. It exchanges the chunks of the one document, and nothing else. -/
theorem replace_atomic {now : Time} (hnow : now.isValid = true) (s : Store) (id : String) {cs : List Chunk}
    (hfit : ∀ c ∈ cs, fitsColumn c.index = true)
    (htimes : ∀ c ∈ cs, ∀ t, c.created = some t → t.isValid = true) :
    (∀ e, s.refusal? id cs = some e → s.run now (.replace id cs) = (.error e, s)) ∧
      (s.refusal? id cs = none →
        ∃ s', s.run now (.replace id cs) = (.ok .done, s') ∧ Exchanged now id cs s s') := by
  refine ⟨fun e he => ?_, fun hnone => ?_⟩
  · rw [run, replace_refused now hfit he]
    rfl
  · have hvalid : ∀ c ∈ cs, (c.created.getD now).isValid = true := by
      intro c hc
      cases hcreated : c.created with
      | none => exact hnow
      | some t => exact htimes c hc t hcreated
    obtain ⟨s', hr, hx⟩ := replace_accepted hfit hvalid hnone
    exact ⟨s', by rw [run, hr]; rfl, hx⟩

def noted : Store := ((table ⟨unfiledPath, true, {}⟩).run (Time.ofUnixMicros 0) (.put note)).2

/-- A chunk is taken for the note that is there, and none for one that is not. -/
theorem replace_atomic_noted :
    noted.refusal? "a" [noteChunk 0] = none ∧ noted.refusal? "b" [] = some (.unknownDocument "b") ∧
      noted.run (Time.ofUnixMicros 0) (.replace "b" []) = (.error (.unknownDocument "b"), noted) ∧
      ∃ s', noted.run (Time.ofUnixMicros 0) (.replace "a" [noteChunk 0]) = (.ok .done, s') ∧
        Exchanged (Time.ofUnixMicros 0) "a" [noteChunk 0] noted s' := by
  have hnow : (Time.ofUnixMicros 0).isValid = true := by decide
  have hfit : ∀ c ∈ [noteChunk 0], fitsColumn c.index = true := by decide
  have htimes : ∀ c ∈ [noteChunk 0], ∀ t, c.created = some t → t.isValid = true := by
    rintro c hc t ht
    rw [List.mem_singleton.1 hc] at ht
    cases ht
    exact hnow
  have hempty : ∀ c ∈ ([] : List Chunk), fitsColumn c.index = true := nofun
  have htimeless : ∀ c ∈ ([] : List Chunk), ∀ t, c.created = some t → t.isValid = true := nofun
  have hnone : noted.refusal? "a" [noteChunk 0] = none := by decide
  have hunknown : noted.refusal? "b" [] = some (.unknownDocument "b") := rfl
  exact ⟨hnone, hunknown, (replace_atomic hnow noted "b" hempty htimeless).1 _ hunknown,
    (replace_atomic hnow noted "a" hfit htimes).2 hnone⟩

/-- A database lists a chunk that came without a time with one, and a chunk that was made at the least offset from
universal time without that offset; once it is closed it does not look for the document any more. -/
theorem replace_fills_time_and_needs_connection :
    let untimed : Chunk := { noteChunk 0 with created := none }
    let offset : Chunk := { noteChunk 0 with created := offsetNote.created }
    let after (c : Chunk) := noted.run (Time.ofUnixMicros 0) (.replace "a" [c])
    (noted.refusal? "a" [untimed] = none ∧ (chunksOf "a" (after untimed).2).outcome ≠ .ok [untimed]) ∧
      (noted.refusal? "a" [offset] = none ∧ (chunksOf "a" (after offset).2).outcome ≠ .ok [offset]) ∧
      (noted.close.run (Time.ofUnixMicros 0) (.replace "b" [])).1 = .error (.store (.replacing "b" .closed)) := by
  refine ⟨⟨by decide, fun h => ?_⟩, ⟨by decide, fun h => ?_⟩, rfl⟩
  all_goals
    have htimes := congrArg (fun r => r.toOption.map (List.map fun c => c.created)) h
    exact absurd htimes (by decide +kernel)

end Store

end Compendium
