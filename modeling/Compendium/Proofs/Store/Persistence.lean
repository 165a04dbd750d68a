import Compendium.Proofs.Store.Replacement

/-!
What a database gives back of what was written to it. Texts, vectors, times and the documents of a log each have a
written form that is read back; of the times, an offset of less than a second is not.
-/
namespace Compendium

/-- Octets that make whole numbers are those of a vector. -/
theorem Embedding.toBytes_ofBytes? {bytes : List UInt8} (h : bytes.length % 4 = 0) :
    ∃ v, Embedding.ofBytes? bytes = .ok v ∧ v.toBytes = bytes := by
  obtain ⟨v, hv, hbytes⟩ := Number.Single.encode_decode? h
  exact ⟨v, by rw [Embedding.ofBytes?, hv], hbytes⟩

/-- A vector comes back from its octets. -/
theorem Embedding.ofBytes?_toBytes (v : Embedding) : Embedding.ofBytes? v.toBytes = .ok v := by
  rw [Embedding.ofBytes?, Embedding.toBytes, Number.Single.decode?_encode]

/-- What can be read one by one can be read in a line. -/
theorem Reading.each_total {α β : Type} {read : α → Reading β} {xs : List α}
    (h : ∀ x ∈ xs, ∃ y, (read x).outcome = .ok y) :
    ∃ ys, (Reading.each read xs).outcome = .ok ys ∧ ∀ x ∈ xs, ∀ y, (read x).outcome = .ok y → y ∈ ys := by
  induction xs with
  | nil => exact ⟨[], rfl, nofun⟩
  | cons x xs ih =>
    obtain ⟨⟨y, hy⟩, hxs⟩ := List.forall_mem_cons.1 h
    obtain ⟨ys, hys, hmem⟩ := ih hxs
    refine ⟨y :: ys, by simp only [Reading.each, Reading.outcome_bind, hy, hys]; rfl, fun x' hx' y' hy' => ?_⟩
    rcases List.mem_cons.1 hx' with rfl | hx'
    · cases hy.symm.trans hy'
      exact List.mem_cons_self
    · exact List.mem_cons_of_mem y (hmem x' hx' y' hy')

/-- Whatever a row of a log holds, it can be read. -/
theorem LogRow.read_outcome (r : LogRow) (now : Time) : ∃ l, (r.read now).outcome = .ok l := by
  obtain ⟨created, hc⟩ := storedTime_outcome (some r.created)
  have hf : ∃ found, r.readFound.outcome = .ok found := by
    rw [LogRow.readFound]
    split
    · exact ⟨_, rfl⟩
    · split
      · exact ⟨_, rfl⟩
      · split <;> exact ⟨_, rfl⟩
  obtain ⟨found, hf⟩ := hf
  exact ⟨_, by simp only [LogRow.read, Reading.outcome_bind, hf, hc]; rfl⟩

namespace Store

variable {d : Database}

/-- A document that is new to a database comes back from it. -/
theorem document_persists (hopen : d.isOpen = true) (now : Time) {x : Document} (hx : x.Dated)
    (hfree : d.tables.hasDocument x.id = false) :
    ∃ s', put now x (.table d) = .ok s' ∧ (document x.id s').outcome = .ok x.kept := by
  refine ⟨.table { d with tables := { d.tables with documents := d.tables.documents ++ [x.row] } }, ?_, ?_⟩
  · have hrow : d.tables.hasDocument x.row.id = false := hfree
    rw [put, Database.put, hx.row_eq now, Database.writing, if_pos hopen, Tables.putDocument, hrow]
    rfl
  · have hnone : d.tables.documents.find? (fun r => r.id = x.id) = none := by
      rw [List.find?_eq_none]
      simpa [Tables.hasDocument] using hfree
    have hfind : (d.tables.documents ++ [x.row]).find? (fun r => r.id = x.id) = some x.row := by
      rw [List.find?_append, hnone]
      simp [Document.row]
    simp only [document, Database.document, Database.reading, hopen, if_true, hfind]
    exact hx.read_row

/-- Chunks that are stored under their document come back in the order of their indexes. -/
theorem chunks_persist (hopen : d.isOpen = true) (now : Time) {id : String} {cs : List Chunk}
    (hstored : d.tables.hasDocument id = true) (hfree : ¬d.tables.Clash id cs)
    (hcs : ∀ c ∈ cs, c.Storable ∧ c.document = id ∧ fitsColumn c.index = true) :
    ∃ s', replace now id cs (.table d) = .ok s' ∧
      (chunksOf id s').outcome = .ok (Memory.byIndex (cs.map Chunk.kept)) := by
  have hvectors : ¬∃ c ∈ cs, c.vector.isNone = true := by
    rintro ⟨c, hc, hnone⟩
    have := (hcs c hc).1.vector
    simp_all
  have hnothing : (table d).refusal? id cs = none := by
    simp only [refusal?, if_neg hvectors, hopen, hstored, if_neg hfree, Bool.true_eq_false, if_false]
  have hvalid : ∀ c ∈ cs, (c.created.getD now).isValid = true := by
    intro c hc
    obtain ⟨t, ht, hv⟩ := (hcs c hc).1.created
    rw [ht]
    exact hv
  obtain ⟨s', hs', hx⟩ := replace_accepted (fun c hc => (hcs c hc).2.2) hvalid hnothing
  refine ⟨s', hs', ?_⟩
  rw [hx.own]
  congr 2
  refine List.map_congr_left fun c hc => ?_
  obtain ⟨hstorable, hdocument, -⟩ := hcs c hc
  obtain ⟨t, ht, -⟩ := hstorable.created
  obtain ⟨cid, cdoc, index, text, vector, created⟩ := c
  cases hdocument
  cases ht
  rfl

/-- A log that is new to a database comes back from it, whenever it is asked for and no limit cuts it off. -/
theorem log_persists (hopen : d.isOpen = true) {l : RetrievalLog} (hvalid : l.created.isValid = true)
    (hlisted : l.foreign = none) (hfree : (d.tables.logs.any fun r => r.id = l.id) = false) :
    ∃ s', addLog l (.table d) = .ok s' ∧
      ∀ (now : Time) (conversation message : String) (limit : Int), fitsColumn limit = true →
        (limit < 0 ∨ d.tables.logs.length < limit) → l.belongsTo conversation message = true →
          ∃ ls, (logsOf now conversation message limit s').outcome = .ok ls ∧ l.kept ∈ ls := by
  let t : Tables := { d.tables with logs := d.tables.logs ++ [LogRow.ofLog l] }
  refine ⟨.table { d with tables := t }, ?_, fun now conversation message limit hfit hlimit hbelongs => ?_⟩
  · rw [addLog, Database.addLog, Database.writing, if_pos hopen, if_neg (by simp [hfree])]
    rfl
  · let sorted := (t.logs.filter (Database.belongs conversation message)).mergeSort fun a b => !(a.created < b.created)
    have hmem : LogRow.ofLog l ∈ Database.limited limit sorted := by
      have hsorted : LogRow.ofLog l ∈ sorted :=
        List.mem_mergeSort.2 (List.mem_filter.2 ⟨List.mem_append_right _ (List.mem_singleton_self _), hbelongs⟩)
      rw [Database.limited]
      split
      · exact hsorted
      next hpositive =>
        have hlength : sorted.length ≤ d.tables.logs.length + 1 := by
          have := List.length_filter_le (Database.belongs conversation message) t.logs
          simpa [sorted, t] using this
        rwa [List.take_of_length_le (by omega)]
    obtain ⟨ls, hls, hall⟩ := Reading.each_total fun r (_ : r ∈ Database.limited limit sorted) =>
      r.read_outcome now
    refine ⟨ls, ?_, hall _ hmem _ (LogRow.read_ofLog hvalid hlisted now)⟩
    simp only [logsOf, Database.logsOf, Database.reading, hopen, if_true, hfit]
    exact hls

/-- What an open database gives back: whatever is new to it, but for offsets of less than a second. Below the rows,
each written form and its reading undo each other. -/
structure Lossless (d : Database) : Prop where
  document : ∀ (now : Time) (x : Document), x.Dated → d.tables.hasDocument x.id = false →
    ∃ s', put now x (.table d) = .ok s' ∧ (document x.id s').outcome = .ok x.kept
  chunks : ∀ (now : Time) (id : String) (cs : List Chunk), d.tables.hasDocument id = true →
    ¬d.tables.Clash id cs → (∀ c ∈ cs, c.Storable ∧ c.document = id ∧ fitsColumn c.index = true) →
    ∃ s', replace now id cs (.table d) = .ok s' ∧
      (chunksOf id s').outcome = .ok (Memory.byIndex (cs.map Chunk.kept))
  log : ∀ l : RetrievalLog, l.created.isValid = true → l.foreign = none →
    (d.tables.logs.any fun r => r.id = l.id) = false →
    ∃ s', addLog l (.table d) = .ok s' ∧
      ∀ (now : Time) (conversation message : String) (limit : Int), fitsColumn limit = true →
        (limit < 0 ∨ d.tables.logs.length < limit) → l.belongsTo conversation message = true →
          ∃ ls, (logsOf now conversation message limit s').outcome = .ok ls ∧ l.kept ∈ ls
  vector : ∀ v : Embedding, Embedding.ofBytes? v.toBytes = .ok v
  octets : ∀ bytes : List UInt8, bytes.length % 4 = 0 → ∃ v, Embedding.ofBytes? bytes = .ok v ∧
    v.toBytes = bytes
  time : ∀ t : Time, t.isValid = true → Time.ofIso? t.iso = some t.kept
  kept : ∀ t : Time, t.kept = t ↔ ∀ o, t.offset = some o → o = 0 ∨ second ≤ o.natAbs
  found : ∀ xs : List String,
    Json.parse? (Json.print Json.spaced (.list (xs.map .text))).toList = some (.list (xs.map .text))

/-- A database loses nothing of what is written to it, but for offsets of less than a second. -/
theorem database_lossless (hopen : d.isOpen = true) : Lossless d where
  document now _ hx hfree := document_persists hopen now hx hfree
  chunks now _ _ hstored hfree hcs := chunks_persist hopen now hstored hfree hcs
  log _ hvalid hlisted hfree := log_persists hopen hvalid hlisted hfree
  vector := Embedding.ofBytes?_toBytes
  octets _ h := Embedding.toBytes_ofBytes? h
  time _ h := Time.ofIso?_iso h
  kept _ := Time.kept_eq_self_iff
  found := Json.parse?_print_texts

def notedTables : Database := ⟨unfiledPath, true, { documents := [note.row] }⟩

/-- A document, a chunk and a log go into a database with a note, and come back. -/
theorem database_lossless_noted :
    notedTables.isOpen = true ∧ Lossless notedTables ∧
      (∃ s', put (Time.ofUnixMicros 0) { note with id := "b" } (.table notedTables) = .ok s' ∧
        (document "b" s').outcome = .ok { note with id := "b" }) ∧
      (∃ s', replace (Time.ofUnixMicros 0) "a" [noteChunk 0] (.table notedTables) = .ok s' ∧
        (chunksOf "a" s').outcome = .ok [noteChunk 0]) ∧
      ∃ s', addLog noteLog (.table notedTables) = .ok s' ∧
        ∃ ls, (logsOf (Time.ofUnixMicros 0) "" "" 50 s').outcome = .ok ls ∧ noteLog ∈ ls := by
  have h : Lossless notedTables := database_lossless rfl
  have hdated : ({ note with id := "b" } : Document).Dated := ⟨dated_note.created, dated_note.updated⟩
  have hchunk : ∀ c ∈ [noteChunk 0], c.Storable ∧ c.document = "a" ∧ fitsColumn c.index = true := by
    rintro c hc
    rw [List.mem_singleton.1 hc]
    exact ⟨⟨rfl, _, rfl, by decide⟩, rfl, by decide⟩
  have hchunks := h.chunks (Time.ofUnixMicros 0) "a" [noteChunk 0] (by decide) (by decide) hchunk
  rw [Memory.byIndex, List.map_singleton, List.mergeSort_singleton] at hchunks
  obtain ⟨s', hs', hread⟩ := h.log noteLog (by decide) rfl rfl
  exact ⟨rfl, h, h.document _ _ hdated (by decide), hchunks, s', hs', hread _ "" "" 50 (by decide)
    (.inr (by decide)) rfl⟩

/-- A note that was made a microsecond off universal time comes back without that offset. -/
theorem least_offset_is_lost :
    let empty : Database := ⟨unfiledPath, true, {}⟩
    offsetNote.Dated ∧ empty.tables.hasDocument offsetNote.id = false ∧
      (∃ s', put (Time.ofUnixMicros 0) offsetNote (.table empty) = .ok s' ∧
        (document offsetNote.id s').outcome ≠ .ok offsetNote) ∧
      ∃ t : Time, offsetNote.created = some t ∧ Time.ofIso? t.iso ≠ some t := by
  refine ⟨dated_offsetNote, rfl, ⟨_, rfl, fun h => ?_⟩, _, rfl, by decide +kernel⟩
  have htimes := congrArg (fun r => r.toOption.map Document.created) h
  exact absurd htimes (by decide +kernel)

end Store

end Compendium
