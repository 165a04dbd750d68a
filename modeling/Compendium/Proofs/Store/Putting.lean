import Compendium.Proofs.Store.Holdings

/-!
What putting a document in place keeps: the chunks of all documents, and the time at which the document was made.
-/
namespace Compendium

/-- The time at which a document was made is read off one column of its row. -/
theorem DocumentRow.read_created {r : DocumentRow} {d : Document} (h : r.read.outcome = .ok d) :
    (storedTime r.created).outcome = .ok d.created := by
  obtain ⟨created, hc⟩ := storedTime_outcome r.created
  obtain ⟨updated, hu⟩ := storedTime_outcome r.updated
  simp only [read, Reading.outcome_bind, hc, hu] at h
  cases h
  exact hc

namespace Store

/-- An item is found by its key if no other item has it. -/
theorem find?_key {α : Type} (key : α → String) {xs : List α} (hn : (xs.map key).Nodup) {x : α} (hx : x ∈ xs) :
    xs.find? (fun y => key y = key x) = some x := by
  cases hf : xs.find? fun y => key y = key x with
  | none => simpa using List.find?_eq_none.1 hf x hx
  | some y =>
    have hkey : key y = key x := by simpa using List.find?_some hf
    rw [List.inj_on_of_nodup_map hn (List.mem_of_find?_eq_some hf) hx hkey]

/-- Documents come and go beside the chunks. -/
theorem chunks_put {s s' : Store} {now : Time} {d : Document} (h : put now d s = .ok s') :
    s'.chunkIds = s.chunkIds ∧ ∀ id, chunksOf id s' = chunksOf id s := by
  cases s with
  | memory m =>
    cases h
    exact ⟨rfl, fun _ => rfl⟩
  | table t =>
    obtain ⟨path, isOpen, tables⟩ := t
    cases isOpen with
    | false => cases h
    | true =>
      cases h
      have hchunks : (tables.putDocument (DocumentRow.ofDocument now d)).chunks = tables.chunks := by
        rw [Tables.putDocument]
        split <;> rfl
      refine ⟨congrArg (List.map ChunkRow.id) hchunks, fun id => ?_⟩
      simp only [chunksOf, Database.chunksOf, Database.reading, hchunks]

/-- A document that is found by its file is the one that its id leads to. -/
theorem document_of_atPath {s : Store} (hs : s.Sound) {path : String} {d : Document}
    (h : (atPath? path s).outcome = .ok (some d)) : (document d.id s).outcome = .ok d := by
  cases s with
  | memory m =>
    simp only [atPath?, Memory.atPath?, Reading.outcome_pure, Except.ok.injEq] at h
    obtain ⟨e, he, rfl⟩ := List.mem_map.1 (List.mem_of_find?_eq_some h)
    have hget : Keyed.get? e.2.id m.documents = some e.2 := (Keyed.get?_eq_some_iff hs.2).2 (hs.1 e he ▸ he)
    simp only [document, Memory.document, Reading.outcome_ofExcept, hget]
  | table t =>
    simp only [atPath?, Database.atPath?, Database.reading, hs.1, if_true] at h
    cases hf : t.tables.documents.find? fun r => r.path = path with
    | none => simp [hf] at h
    | some r =>
      obtain ⟨e, he, hsource⟩ := r.read_outcome
      simp only [hf, Reading.outcome_map, he, Except.map, Except.ok.injEq, Option.some.injEq] at h
      subst h
      have hid : e.id = r.id := congrArg Source.id hsource
      have hfind : (t.tables.documents.find? fun r' => r'.id = e.id) = some r := by
        rw [hid]
        exact find?_key DocumentRow.id hs.2.1 (List.mem_of_find?_eq_some hf)
      simp only [document, Database.document, Database.reading, hs.1, if_true, hfind, he]

/-- A row that takes the place of another keeps its time of making. -/
theorem find_putDocument_self {t : Tables} {row r : DocumentRow}
    (h : (t.documents.find? fun r => r.id = row.id) = some r) :
    ((t.putDocument row).documents.find? fun r => r.id = row.id) = some { row with created := r.created } := by
  have hr : r.id = row.id := by simpa using List.find?_some h
  have hthere : t.hasDocument row.id = true :=
    List.any_eq_true.2 ⟨r, List.mem_of_find?_eq_some h, by simpa using hr⟩
  let change (r : DocumentRow) : DocumentRow := if r.id = row.id then { row with created := r.created } else r
  have hid (r : DocumentRow) : (change r).id = row.id ↔ r.id = row.id := by
    by_cases hr : r.id = row.id
    · simp [change, hr]
    · simp [change, hr]
  rw [Tables.putDocument, if_pos hthere]
  change List.find? _ (t.documents.map change) = _
  rw [List.find?_map, Function.comp_def]
  simp only [hid, h, Option.map_some]
  exact congrArg some (if_pos hr)

/-- A document that is put in place of an older one is there, and was made when the older one was. -/
theorem document_put_self {s s' : Store} (hs : s.Sound) {now : Time} {d old : Document} (h : put now d s = .ok s')
    (hold : (document d.id s).outcome = .ok old) (hcreated : d.created = old.created) :
    ∃ e, (document d.id s').outcome = .ok e ∧ e.source = d.source ∧ e.created = old.created := by
  cases s with
  | memory m =>
    cases h
    exact ⟨d, by simp only [document, Memory.document, Memory.put, Keyed.get?_put_self]; rfl, rfl, hcreated⟩
  | table t =>
    obtain ⟨path, isOpen, tables⟩ := t
    obtain rfl : isOpen = true := hs.1
    cases h
    simp only [document, Database.document, Database.reading, if_true] at hold ⊢
    cases hf : tables.documents.find? fun r => r.id = d.id with
    | none => simp [hf] at hold
    | some r =>
      rw [hf] at hold
      obtain ⟨e, he, hsource⟩ := DocumentRow.read_outcome { DocumentRow.ofDocument now d with created := r.created }
      have hself := @find_putDocument_self tables (DocumentRow.ofDocument now d) r hf
      refine ⟨e, ?_, hsource, ?_⟩
      · rw [show d.id = (DocumentRow.ofDocument now d).id from rfl, hself]
        exact he
      · have hnew := DocumentRow.read_created he
        have hmade := DocumentRow.read_created hold
        exact Except.ok.inj (hnew.symm.trans hmade)

end Store

end Compendium
