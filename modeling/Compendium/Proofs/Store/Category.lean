import Compendium.Proofs.Store.Persistence
import Compendium.Proofs.Store.Putting

/-!
Categories stand apart. What a store gives for a category comes from the documents of that category and their chunks,
so no call that spares these documents changes it.
-/
namespace Compendium

/-- Two categories are the same, letter case aside. -/
def SameCategory (a b : String) : Prop := Text.caseless a = Text.caseless b

instance (a b : String) : Decidable (SameCategory a b) := inferInstanceAs (Decidable (_ = _))

theorem matchesCategory_iff {c a : String} (hc : c ≠ "") :
    matchesCategory (some c) a = true ↔ SameCategory a c := by
  simp [matchesCategory, SameCategory, hc]

/-- What was read in a line was read one by one. -/
theorem Reading.each_eq_ok {α β : Type} {read : α → Reading β} {xs : List α} {ys : List β}
    (h : (Reading.each read xs).outcome = .ok ys) :
    (∀ x ∈ xs, ∃ y, (read x).outcome = .ok y) ∧ ∀ y ∈ ys, ∃ x ∈ xs, (read x).outcome = .ok y := by
  induction xs generalizing ys with
  | nil =>
    cases h
    exact ⟨nofun, nofun⟩
  | cons x xs ih =>
    simp only [Reading.each, Reading.outcome_bind, Reading.outcome_pure, bind_eq_ok] at h
    obtain ⟨y, hx, zs, hxs, hys⟩ := h
    cases hys
    obtain ⟨hall, hfrom⟩ := ih hxs
    refine ⟨List.forall_mem_cons.2 ⟨⟨y, hx⟩, hall⟩,
      List.forall_mem_cons.2 ⟨⟨x, List.mem_cons_self, hx⟩, ?_⟩⟩
    exact fun z hz => (hfrom z hz).imp fun x' => And.imp_left (List.mem_cons_of_mem x)

namespace Store

/-! What a store holds of a category. -/

def Shows (h : Header) (s : Store) : Prop := ∃ d, (document h.id s).outcome = .ok d ∧ d.header = h

def Lacks (c id : String) (s : Store) : Prop := ∀ d, (document id s).outcome = .ok d → ¬SameCategory d.category c

structure Belongs (c : String) (h : Header) (k : Chunk) (s : Store) : Prop where
  shown : s.Shows h
  category : SameCategory h.category c
  listed : ∃ cs, (chunksOf h.id s).outcome = .ok cs ∧ k ∈ cs

/-- Two stores hold the same documents of a category with the same chunks, and give these in the same order. -/
structure SameWithin (c : String) (s s' : Store) : Prop where
  headers : ∀ h : Header, SameCategory h.category c → (s'.Shows h ↔ s.Shows h)
  chunks : ∀ h : Header, SameCategory h.category c → s.Shows h →
    (chunksOf h.id s').outcome = (chunksOf h.id s).outcome
  order : (candidates (some c) s').outcome.map (List.map fun k => k.chunk.id) =
    (candidates (some c) s).outcome.map (List.map fun k => k.chunk.id)

theorem SameWithin.refl (c : String) (s : Store) : SameWithin c s s := ⟨fun _ _ => .rfl, fun _ _ _ => rfl, rfl⟩

theorem sameWithin_of_answers {c : String} {s s' : Store} (hdocument : ∀ id, document id s' = document id s)
    (hchunks : ∀ id, chunksOf id s' = chunksOf id s) (hcandidates : candidates (some c) s' = candidates (some c) s) :
    SameWithin c s s' :=
  ⟨fun h _ => by rw [Shows, hdocument, ← Shows], fun h _ _ => by rw [hchunks], by rw [hcandidates]⟩

theorem SameWithin.trans {c : String} {s t u : Store} (h : SameWithin c s t) (h' : SameWithin c t u) :
    SameWithin c s u where
  headers head hc := (h'.headers head hc).trans (h.headers head hc)
  chunks head hc hs := (h'.chunks head hc ((h.headers head hc).2 hs)).trans (h.chunks head hc hs)
  order := h'.order.trans h.order

/-- In memory, documents lie under their ids, and chunks under each id once. -/
def Filed : Store → Prop
  | .memory m => (∀ e ∈ m.documents, e.2.id = e.1) ∧ (Keyed.keys m.chunks).Nodup
  | .table _ => True

theorem New.filed {s : Store} (h : s.New) : s.Filed := by
  cases h with
  | memory => exact ⟨nofun, List.nodup_nil⟩
  | table path => trivial

/-! Candidates. -/

theorem shows_of_headerOf {d : Database} (hopen : d.isOpen = true) {r : ChunkRow} {h : Header}
    (hr : d.tables.headerOf? r = some h) : h.id = r.document ∧ (table d).Shows h := by
  obtain ⟨row, hrow, rfl⟩ := Option.map_eq_some_iff.1 hr
  obtain ⟨x, hx, hsource⟩ := row.read_outcome
  have hid : row.id = r.document := by simpa using List.find?_some hrow
  refine ⟨rfl, x, ?_, ?_⟩
  · simp only [document, Database.document, Database.reading, hopen, if_true, hrow, hx]
  · simp only [Document.header, Header.mk.injEq]
    exact ⟨(congrArg Source.id hsource).trans hid, congrArg Source.category hsource, congrArg Source.title hsource⟩

/-- A chunk row with its document's header, if the document is of a category. -/
def wanted? (category : Option String) (t : Tables) (r : ChunkRow) : Option (ChunkRow × Header) :=
  ((t.headerOf? r).map fun h => (r, h)).filter fun e => matchesCategory category e.2.category

theorem wanted?_eq_some {category : Option String} {t : Tables} {r : ChunkRow} {e : ChunkRow × Header} :
    wanted? category t r = some e ↔ r = e.1 ∧ t.headerOf? r = some e.2 ∧
      matchesCategory category e.2.category = true := by
  obtain ⟨r', h⟩ := e
  simp only [wanted?, Option.filter_eq_some_iff, Option.map_eq_some_iff, Prod.mk.injEq]
  constructor
  · rintro ⟨⟨h, hh, rfl, rfl⟩, hm⟩
    exact ⟨rfl, hh, hm⟩
  · rintro ⟨rfl, hh, hm⟩
    exact ⟨⟨h, hh, rfl, rfl⟩, hm⟩

theorem candidates_table (category : Option String) (d : Database) :
    d.candidates category =
      d.reading (Reading.each (fun e => do return ⟨← e.1.read, e.2⟩)
        (Tables.inOrder (d.tables.chunks.filterMap (wanted? category d.tables)))) := by
  rw [Database.candidates, List.filter_filterMap]
  rfl

theorem filterMap_wanted_sublist (category : Option String) (t : Tables) (rows : List ChunkRow) :
    ((rows.filterMap (wanted? category t)).map Prod.fst).Sublist rows := by
  induction rows with
  | nil => exact .slnil
  | cons r rows ih =>
    rw [List.filterMap_cons]
    cases hr : wanted? category t r with
    | none => exact ih.cons r
    | some e =>
      obtain ⟨rfl, -, -⟩ := wanted?_eq_some.1 hr
      exact ih.cons_cons e.1

theorem ids_of_candidates {rows : List (ChunkRow × Header)} {ks : List Candidate}
    (h : (Reading.each (fun e => do return ⟨← e.1.read, e.2⟩) rows).outcome = .ok ks) :
    (ks.map fun k => k.chunk.id) = rows.map fun e => e.1.id := by
  induction rows generalizing ks with
  | nil =>
    cases h
    rfl
  | cons e rows ih =>
    simp only [Reading.each, ChunkRow.read, Reading.outcome_bind, Reading.outcome_pure, bind_eq_ok] at h
    obtain ⟨k, ⟨c, ⟨v, -, t, -, hc⟩, hk⟩, rest, hrest, h⟩ := h
    cases hc
    cases hk
    cases h
    rw [List.map_cons, List.map_cons, ih hrest]

/-- Where no two chunks have the same id, no two candidates have. -/
theorem nodup_candidates {s : Store} (hn : s.chunkIds.Nodup) {category : Option String} {ks : List Candidate}
    (h : (candidates category s).outcome = .ok ks) : (ks.map fun k => k.chunk.id).Nodup := by
  cases s with
  | memory m =>
    cases h
    have hsub : ((m.candidates category).map fun k => k.chunk.id).Sublist
      (m.chunks.flatMap fun e => e.2.map Chunk.id) := by
      rw [Memory.candidates, List.map_flatMap]
      induction m.chunks with
      | nil => exact .slnil
      | cons e rest ih =>
        rw [List.flatMap_cons, List.flatMap_cons]
        refine List.Sublist.append ?_ ih
        cases Keyed.get? e.1 m.documents with
        | none => exact List.nil_sublist _
        | some d =>
          dsimp only
          split
          · rw [List.map_map]
            exact .refl _
          · exact List.nil_sublist _
    exact hsub.nodup hn
  | table d =>
    simp only [candidates, candidates_table, Database.reading] at h
    split at h
    · rw [ids_of_candidates h]
      refine ((List.mergeSort_perm _ _).map _).nodup_iff.2 ?_
      have hsub := (filterMap_wanted_sublist category d.tables d.tables.chunks).map ChunkRow.id
      rw [List.map_map] at hsub
      exact hsub.nodup hn
    · cases h

/-- A candidate is a chunk that is listed for a document of the category. -/
theorem belongs_of_mem_candidates {s : Store} (hs : s.Filed) {c : String} (hc : c ≠ "") {ks : List Candidate}
    (h : (candidates (some c) s).outcome = .ok ks) : ∀ k ∈ ks, s.Belongs c k.header k.chunk := by
  intro k hk
  cases s with
  | memory m =>
    cases h
    obtain ⟨e, he, hk⟩ := List.mem_flatMap.1 hk
    cases hget : Keyed.get? e.1 m.documents with
    | none => simp [hget] at hk
    | some d =>
      simp only [hget] at hk
      split at hk
      next hm =>
        obtain ⟨k, hmem, rfl⟩ := List.mem_map.1 hk
        have hid : d.header.id = e.1 := hs.1 _ (Keyed.mem_of_get?_eq_some hget)
        refine ⟨⟨d, ?_, rfl⟩, (matchesCategory_iff hc).1 hm, e.2, ?_, hmem⟩
        · simp only [hid, document, Memory.document, hget, Reading.outcome_ofExcept]
        · change Except.ok (m.chunksOf d.header.id) = _
          rw [hid, Memory.chunksOf, (Keyed.get?_eq_some_iff hs.2).2 he]
          rfl
      next => cases hk
  | table d =>
    rw [candidates, candidates_table, Database.reading] at h
    split at h
    next hopen =>
      obtain ⟨hall, hfrom⟩ := Reading.each_eq_ok h
      have hwanted (e : ChunkRow × Header) :
          e ∈ Tables.inOrder (d.tables.chunks.filterMap (wanted? (some c) d.tables)) ↔
            e.1 ∈ d.tables.chunks ∧ d.tables.headerOf? e.1 = some e.2 ∧
              matchesCategory (some c) e.2.category = true := by
        simp [Tables.inOrder, List.mem_mergeSort, wanted?_eq_some]
      obtain ⟨⟨r, head⟩, hr, hread⟩ := hfrom k hk
      obtain ⟨hr, hhead, hm⟩ := (hwanted _).1 hr
      obtain ⟨hid, hshows⟩ := shows_of_headerOf hopen hhead
      simp only [Reading.outcome_bind, Reading.outcome_pure, bind_eq_ok] at hread hall
      obtain ⟨x, hx, hk'⟩ := hread
      cases hk'
      -- The other rows of the document are candidates too, so all of them can be read.
      have hrows : ∀ r' ∈ d.tables.chunks.filter (fun r' => r'.document = head.id),
          ∃ y, r'.read.outcome = .ok y := by
        intro r' hr'
        obtain ⟨hr', hdoc⟩ := List.mem_filter.1 hr'
        have hhead' : d.tables.headerOf? r' = some head := by
          rw [← hhead, Tables.headerOf?, Tables.headerOf?, of_decide_eq_true hdoc, hid]
        obtain ⟨-, x', hx', -⟩ := hall (r', head) ((hwanted _).2 ⟨hr', hhead', hm⟩)
        exact ⟨x', hx'⟩
      have hsorted :
          ∀ r' ∈ (d.tables.chunks.filter fun r' => r'.document = head.id).mergeSort fun a b => a.index ≤ b.index,
            ∃ y, r'.read.outcome = .ok y := fun r' hr' => hrows r' (List.mem_mergeSort.1 hr')
      obtain ⟨cs, hcs, hmem⟩ := Reading.each_total hsorted
      refine ⟨hshows, (matchesCategory_iff hc).1 hm, cs, ?_, hmem r ?_ x hx⟩
      · simpa only [chunksOf, Database.chunksOf, Database.reading, hopen, if_true] using hcs
      · exact List.mem_mergeSort.2 (List.mem_filter.2 ⟨hr, decide_eq_true hid.symm⟩)
    next => cases h

/-- Lists are equal if they look alike and no two of their items do. -/
theorem eq_of_map_eq {α β : Type} {f : α → β} {xs ys : List α} (h : xs.map f = ys.map f)
    (hinj : ∀ x ∈ xs, ∀ y ∈ ys, f x = f y → x = y) : xs = ys := by
  refine List.ext_getElem (by simpa using congrArg List.length h) fun i hi hi' => ?_
  refine hinj _ (List.getElem_mem hi) _ (List.getElem_mem hi') ?_
  simpa [hi, hi'] using congrArg (fun l => l[i]?) h

/-- Where chunks have ids of their own, stores with the same of a category give the same candidates. -/
theorem SameWithin.candidates_eq {c : String} {s s' : Store} (h : SameWithin c s s') (hc : c ≠ "") (hs : s.Filed)
    (hs' : s'.Filed) (hids : s.chunkIds.Nodup) :
    (candidates (some c) s').outcome = (candidates (some c) s).outcome := by
  have horder := h.order
  cases hks : (candidates (some c) s).outcome with
  | error e =>
    cases hks' : (candidates (some c) s').outcome with
    | error e' => simpa [hks, hks', Except.map] using horder
    | ok ks' => simp [hks, hks', Except.map] at horder
  | ok ks =>
    cases hks' : (candidates (some c) s').outcome with
    | error e' => simp [hks, hks', Except.map] at horder
    | ok ks' =>
      simp only [hks, hks', Except.map, Except.ok.injEq] at horder
      refine congrArg _ (eq_of_map_eq horder fun k' hk' k hk hid => ?_)
      obtain ⟨⟨d, hd, hhead⟩, -, cs, hcs, hmem⟩ := belongs_of_mem_candidates hs hc hks k hk
      obtain ⟨hshown, hcategory, cs', hcs', hmem'⟩ := belongs_of_mem_candidates hs' hc hks' k' hk'
      -- The first store lists the other's chunk too, and under one id it has one chunk of one document.
      have hshown := (h.headers _ hcategory).1 hshown
      rw [h.chunks _ hcategory hshown] at hcs'
      have hheader : k'.header.id = k.header.id := by
        by_contra hne
        exact chunksOf_apart hids hcs' hcs hne hmem' hmem hid
      obtain ⟨d', hd', hhead'⟩ := hshown
      rw [hheader] at hcs' hd'
      cases hcs.symm.trans hcs'
      cases hd.symm.trans hd'
      have hchunk : k'.chunk = k.chunk := List.inj_on_of_nodup_map (nodup_chunksOf hids hcs) hmem' hmem hid
      obtain ⟨chunk, header⟩ := k
      obtain ⟨chunk', header'⟩ := k'
      simp only at hchunk hhead hhead'
      rw [hchunk, ← hhead, ← hhead']

/-! Changes at one document. -/

inductive DifferAt (id : String) : Store → Store → Prop where
  | memory {m m' : Memory}
      (documents : ∀ other, other ≠ id → Keyed.get? other m'.documents = Keyed.get? other m.documents)
      (chunks : Keyed.erase id m'.chunks = Keyed.erase id m.chunks) : DifferAt id (.memory m) (.memory m')
  | table {d d' : Database} (isOpen : d'.isOpen = d.isOpen)
      (documents : ∀ other, other ≠ id → (d'.tables.documents.find? fun r => r.id = other) =
        d.tables.documents.find? fun r => r.id = other)
      (chunks : (d'.tables.dropChunks id).chunks = (d.tables.dropChunks id).chunks) :
      DifferAt id (.table d) (.table d')

theorem DifferAt.document_eq {id other : String} {s s' : Store} (h : DifferAt id s s') (hne : other ≠ id) :
    (document other s').outcome = (document other s).outcome := by
  cases h with
  | memory documents chunks => simp only [document, Memory.document, documents other hne]
  | table isOpen documents chunks =>
    simp only [document, Database.document, Database.reading, isOpen, documents other hne]

theorem DifferAt.chunksOf_eq {id other : String} {s s' : Store} (h : DifferAt id s s') (hne : other ≠ id) :
    (chunksOf other s').outcome = (chunksOf other s).outcome := by
  cases h with
  | @memory m m' documents chunks =>
    have hget : Keyed.get? other m'.chunks = Keyed.get? other m.chunks := by
      rw [← Keyed.get?_erase_of_ne m'.chunks (Ne.symm hne), chunks, Keyed.get?_erase_of_ne _ (Ne.symm hne)]
    simp only [chunksOf, Memory.chunksOf, hget]
  | @table d d' isOpen documents chunks =>
    have hrows : d'.tables.chunks.filter (fun r => r.document = other) =
        d.tables.chunks.filter fun r => r.document = other := by
      rw [← rowsOf_dropped hne, chunks, rowsOf_dropped hne]
    simp only [chunksOf, Database.chunksOf, Database.reading, isOpen, hrows]

def candidatesAt (category : Option String) (m : Memory) (e : String × List Chunk) : List Candidate :=
  match Keyed.get? e.1 m.documents with
  | none => []
  | some d => if matchesCategory category d.category then e.2.map fun c => ⟨c, d.header⟩ else []

theorem candidatesAt_eq_nil {m : Memory} {c : String} (hc : c ≠ "") {e : String × List Chunk}
    (h : (memory m).Lacks c e.1) : candidatesAt (some c) m e = [] := by
  rw [candidatesAt]
  split
  · rfl
  next d hd =>
    refine if_neg fun hm => h d ?_ ((matchesCategory_iff hc).1 hm)
    simp only [document, Memory.document, hd, Reading.outcome_ofExcept]

theorem wanted?_eq_none {d : Database} (hopen : d.isOpen = true) {c : String} (hc : c ≠ "") {r : ChunkRow}
    (h : (table d).Lacks c r.document) : wanted? (some c) d.tables r = none := by
  refine Option.eq_none_iff_forall_ne_some.2 fun e he => ?_
  obtain ⟨-, hhead, hm⟩ := wanted?_eq_some.1 he
  obtain ⟨hid, x, hx, hx'⟩ := shows_of_headerOf hopen hhead
  refine h x (hid ▸ hx) ((matchesCategory_iff hc).1 ?_)
  rwa [show x.category = e.2.category from congrArg Header.category hx']

theorem flatMap_erase {α : Type} {id : String} {f : String × List Chunk → List α}
    (h : ∀ e, e.1 = id → f e = [])
    (es : List (String × List Chunk)) : (Keyed.erase id es).flatMap f = es.flatMap f := by
  induction es with
  | nil => rfl
  | cons e es ih =>
    by_cases he : e.1 = id
    · rw [Keyed.erase, List.filter_cons_of_neg (by simpa using he), ← Keyed.erase, ih, List.flatMap_cons, h e he,
        List.nil_append]
    · rw [Keyed.erase_cons_of_ne es he, List.flatMap_cons, List.flatMap_cons, ih]

theorem filterMap_dropChunks {α : Type} {id : String} {f : ChunkRow → Option α}
    (h : ∀ r, r.document = id → f r = none)
    (t : Tables) : (t.dropChunks id).chunks.filterMap f = t.chunks.filterMap f := by
  rw [Tables.dropChunks, List.filterMap_filter]
  refine List.filterMap_congr fun r _ => ?_
  by_cases hr : r.document = id
  · rw [if_neg (by simpa using hr), h r hr]
  · rw [if_pos (by simpa using hr)]

/-- A document that was not of the category and is not of it now makes no difference to the candidates. -/
theorem DifferAt.candidates_eq {id c : String} {s s' : Store} (h : DifferAt id s s') (hc : c ≠ "") (hs : s.Lacks c id)
    (hs' : s'.Lacks c id) : (candidates (some c) s').outcome = (candidates (some c) s).outcome := by
  cases h with
  | @memory m m' documents chunks =>
    refine congrArg Except.ok (?_ : m'.candidates (some c) = m.candidates (some c))
    calc m'.chunks.flatMap (candidatesAt (some c) m')
        = (Keyed.erase id m'.chunks).flatMap (candidatesAt (some c) m') :=
          (flatMap_erase (fun e he => candidatesAt_eq_nil hc (he ▸ hs')) _).symm
      _ = (Keyed.erase id m.chunks).flatMap (candidatesAt (some c) m) := by
          rw [chunks]
          refine List.flatMap_congr fun e he => ?_
          have hne : e.1 ≠ id := by simpa using (List.mem_filter.1 he).2
          rw [candidatesAt, candidatesAt, documents e.1 hne]
      _ = m.chunks.flatMap (candidatesAt (some c) m) := flatMap_erase (fun e he => candidatesAt_eq_nil hc (he ▸ hs)) _
  | @table d d' isOpen documents chunks =>
    rw [candidates, candidates, candidates_table, candidates_table, Database.reading, Database.reading, isOpen]
    split
    next hopen =>
      have hrows : d'.tables.chunks.filterMap (wanted? (some c) d'.tables) =
          d.tables.chunks.filterMap (wanted? (some c) d.tables) := by
        calc d'.tables.chunks.filterMap (wanted? (some c) d'.tables)
            = (d'.tables.dropChunks id).chunks.filterMap (wanted? (some c) d'.tables) :=
              (filterMap_dropChunks (fun r hr => wanted?_eq_none (isOpen.trans hopen) hc (hr ▸ hs')) _).symm
          _ = (d.tables.dropChunks id).chunks.filterMap (wanted? (some c) d.tables) := by
              rw [chunks]
              refine List.filterMap_congr fun r hr => ?_
              have hne : r.document ≠ id := by simpa using (List.mem_filter.1 hr).2
              rw [wanted?, wanted?, Tables.headerOf?, Tables.headerOf?, documents r.document hne]
          _ = d.tables.chunks.filterMap (wanted? (some c) d.tables) :=
              filterMap_dropChunks (fun r hr => wanted?_eq_none hopen hc (hr ▸ hs)) _
      rw [hrows]
    next => rfl

/-- A document that was not of the category and is not of it now makes no difference. -/
theorem DifferAt.sameWithin {id c : String} {s s' : Store} (h : DifferAt id s s') (hc : c ≠ "") (hs : s.Lacks c id)
    (hs' : s'.Lacks c id) : SameWithin c s s' := by
  have hother {t : Store} (ht : t.Lacks c id) {head : Header} (hhead : SameCategory head.category c)
      (hshown : t.Shows head) : head.id ≠ id := by
    rintro rfl
    obtain ⟨d, hd, rfl⟩ := hshown
    exact ht d hd hhead
  refine ⟨fun head hhead => ⟨fun hshown => ?_, fun hshown => ?_⟩, fun head hhead hshown => ?_, ?_⟩
  · rwa [Shows, ← h.document_eq (hother hs' hhead hshown)]
  · rwa [Shows, h.document_eq (hother hs hhead hshown)]
  · exact h.chunksOf_eq (hother hs hhead hshown)
  · rw [h.candidates_eq hc hs hs']

/-! Calls. -/

theorem erase_put {id : String} {cs : List Chunk} (es : List (String × List Chunk)) :
    Keyed.erase id (Keyed.put id cs es) = Keyed.erase id es := by
  induction es with
  | nil => rw [Keyed.put, Keyed.erase_cons_self]
  | cons e es ih =>
    obtain ⟨k, v⟩ := e
    rw [Keyed.put]
    split
    next hk => rw [hk, Keyed.erase_cons_self, Keyed.erase_cons_self]
    next hk => rw [Keyed.erase_cons_of_ne _ hk, Keyed.erase_cons_of_ne _ hk, ih]

theorem erase_erase {id : String} (es : List (String × List Chunk)) :
    Keyed.erase id (Keyed.erase id es) = Keyed.erase id es :=
  Keyed.erase_of_not_mem fun h => (Keyed.mem_keys_erase_iff.1 h).2 rfl

/-- A document that is put changes nothing about the others. -/
theorem differAt_put {s s' : Store} {now : Time} {doc : Document} (h : put now doc s = .ok s') :
    DifferAt doc.id s s' := by
  cases s with
  | memory m =>
    cases h
    exact .memory (fun other hne => Keyed.get?_put_of_ne _ _ (Ne.symm hne)) rfl
  | table d =>
    simp only [put, Database.put, Database.writing] at h
    split at h
    · cases h
      refine .table rfl (fun other hne => find_putDocument _ (Ne.symm hne)) ?_
      simp only [Tables.dropChunks, Tables.putDocument]
      split <;> rfl
    · cases h

theorem category_put {s s' : Store} {now : Time} {doc d : Document} (h : put now doc s = .ok s')
    (hd : (document doc.id s').outcome = .ok d) : d.category = doc.category := by
  cases s with
  | memory m =>
    cases h
    simp only [document, Memory.document, Memory.put, Keyed.get?_put_self, Reading.outcome_ofExcept] at hd
    cases hd
    rfl
  | table t =>
    simp only [put, Database.put, Database.writing] at h
    split at h
    next hopen =>
      cases h
      simp only [document, Database.document, Database.reading, hopen, if_true] at hd
      split at hd
      next row hrow =>
        obtain ⟨x, hx, hsource⟩ := row.read_outcome
        cases hx.symm.trans hd
        have hmem := List.mem_map_of_mem (f := DocumentRow.source) (List.mem_of_find?_eq_some hrow)
        rcases (putDocument_sources _ _ _).1 hmem with he | ⟨-, hne⟩
        · exact congrArg Source.category (hsource.trans he)
        · have hid : row.id = doc.id := by simpa using List.find?_some hrow
          exact absurd hid hne
      next => cases hd
    next => cases h

/-- A document that is deleted is gone, and nothing about the others changes. -/
theorem differAt_delete {s s' : Store} {id : String} (h : delete id s = .ok s') :
    DifferAt id s s' ∧ ∀ d, (document id s').outcome ≠ .ok d := by
  cases s with
  | memory m =>
    rw [delete, Memory.delete] at h
    split at h <;> cases h
    refine ⟨.memory (fun other hne => Keyed.get?_erase_of_ne _ (Ne.symm hne)) (erase_erase _), fun d => ?_⟩
    simp [document, Memory.document, Keyed.get?_erase_self]
  | table t =>
    rw [delete, Database.delete, Database.writing] at h
    split at h
    next hopen =>
      split at h <;> cases h
      refine ⟨.table rfl (fun other hne => ?_) ?_, fun d => ?_⟩
      · simp only [Tables.dropDocument]
        rw [List.find?_filter]
        refine congrArg (fun p => t.tables.documents.find? p) (funext fun r => ?_)
        by_cases hr : r.id = other <;> simp [hr, hne]
      · simp [Tables.dropChunks, Tables.dropDocument, List.filter_filter]
      · have hnone : ((t.tables.dropDocument id).documents.find? fun r => r.id = id) = none := by
          simp [Tables.dropDocument, List.find?_eq_none]
        simp [document, Database.document, Database.reading, hopen, hnone]
    next => cases h

/-- New chunks of a document change neither it nor the others. -/
theorem differAt_replace {s s' : Store} {now : Time} {id : String} {cs : List Chunk}
    (h : replace now id cs s = .ok s') :
    DifferAt id s s' ∧ (document id s').outcome = (document id s).outcome := by
  cases s with
  | memory m =>
    rw [replace, Memory.replace] at h
    split at h <;> cases h
    refine ⟨.memory (fun _ _ => rfl) ?_, rfl⟩
    dsimp only
    split
    · exact erase_erase _
    · exact erase_put _
  | table t =>
    rw [replace] at h
    cases hr : t.replace now id cs with
    | error e => simp [hr, Except.map] at h
    | ok t' =>
      obtain ⟨-, rows, -, -, hrows, rfl⟩ := database_replace_eq_ok hr
      simp only [hr, Except.map, Except.ok.injEq] at h
      subst h
      refine ⟨.table rfl (fun _ _ => rfl) ?_, rfl⟩
      have hnone : rows.filter (fun r => r.document != id) = [] :=
        List.filter_eq_nil_iff.2 fun r hr => by simp [(hrows r hr).1]
      simp [Tables.dropChunks, List.filter_filter, hnone]

theorem differAt_deleteChunks {s s' : Store} {id : String} (h : deleteChunks id s = .ok s') :
    DifferAt id s s' ∧ (document id s').outcome = (document id s).outcome := by
  cases s with
  | memory m =>
    cases h
    exact ⟨.memory (fun _ _ => rfl) (erase_erase _), rfl⟩
  | table t =>
    rw [deleteChunks, Database.deleteChunks, Database.writing] at h
    split at h <;> cases h
    exact ⟨.table rfl (fun _ _ => rfl) (by simp [Tables.dropChunks, List.filter_filter]), rfl⟩

inductive LogsAside : Store → Store → Prop where
  | memory (m : Memory) (logs : List RetrievalLog) : LogsAside (.memory m) (.memory { m with logs := logs })
  | table (d : Database) (logs : List LogRow) :
      LogsAside (.table d) (.table { d with tables := { d.tables with logs := logs } })

theorem logsAside_addLog {s s' : Store} {l : RetrievalLog} (h : addLog l s = .ok s') : LogsAside s s' := by
  cases s with
  | memory m =>
    cases h
    exact .memory m _
  | table d =>
    rw [addLog, Database.addLog, Database.writing] at h
    split at h <;> try split at h
    all_goals cases h
    exact .table d _

theorem logsAside_deleteLog {s s' : Store} {id : String} (h : deleteLog id s = .ok s') : LogsAside s s' := by
  cases s with
  | memory m =>
    rw [deleteLog, Memory.deleteLog] at h
    split at h <;> cases h
    exact .memory m _
  | table d =>
    rw [deleteLog, Database.deleteLog, Database.writing] at h
    split at h <;> try split at h
    all_goals cases h
    exact .table d _

/-- Logs do not show in a category. -/
theorem LogsAside.sameWithin {s s' : Store} (h : LogsAside s s') (c : String) : SameWithin c s s' := by
  cases h <;> exact sameWithin_of_answers (fun _ => rfl) (fun _ => rfl) rfl

end Store

/-- A call that leaves alone the documents of a category, and takes none into it; the store stays open. -/
def Call.Spares (c : String) (s : Store) : Call → Prop
  | .put doc => ¬SameCategory doc.category c ∧ s.Lacks c doc.id
  | .delete id | .replace id _ | .deleteChunks id => s.Lacks c id
  | .close => False
  | _ => True

def Sparing (c : String) : Store → List (Time × Call) → Prop
  | _, [] => True
  | s, (now, call) :: rest => call.Spares c s ∧ Sparing c (s.run now call).2 rest

namespace Store

def after (s : Store) (calls : List (Time × Call)) : Store := calls.foldl (fun s k => (s.run k.1 k.2).2) s

theorem settled_rel {R : Store → Store → Prop} {s : Store} (hrefl : R s s) {r : Except Fault Store}
    (h : ∀ s', r = .ok s' → R s s') : R s (s.settled r).2 := by
  cases r with
  | ok s' => exact h s' rfl
  | error e => exact hrefl

/-- A call that spares a category leaves all of it as it was. -/
theorem sameWithin_run {c : String} (hc : c ≠ "") {s : Store} {call : Call} (h : call.Spares c s) (now : Time) :
    SameWithin c s (s.run now call).2 := by
  have hrefl := SameWithin.refl c s
  cases call with
  | put doc =>
    refine settled_rel hrefl fun s' hs' => (differAt_put hs').sameWithin hc h.2 fun d hd => ?_
    rw [category_put hs' hd]
    exact h.1
  | delete id =>
    refine settled_rel hrefl fun s' hs' => ?_
    obtain ⟨hdiffer, hgone⟩ := differAt_delete hs'
    exact hdiffer.sameWithin hc h fun d hd => absurd hd (hgone d)
  | replace id cs =>
    refine settled_rel hrefl fun s' hs' => ?_
    obtain ⟨hdiffer, hsame⟩ := differAt_replace hs'
    exact hdiffer.sameWithin hc h fun d hd => h d (hsame ▸ hd)
  | deleteChunks id =>
    refine settled_rel hrefl fun s' hs' => ?_
    obtain ⟨hdiffer, hsame⟩ := differAt_deleteChunks hs'
    exact hdiffer.sameWithin hc h fun d hd => h d (hsame ▸ hd)
  | addLog l => exact settled_rel hrefl fun s' hs' => (logsAside_addLog hs').sameWithin c
  | deleteLog id => exact settled_rel hrefl fun s' hs' => (logsAside_deleteLog hs').sameWithin c
  | close => exact h.elim
  | _ => exact hrefl

/-- Calls that spare a category leave it as it is. -/
theorem sameWithin_after {c : String} (hc : c ≠ "") {s : Store} {calls : List (Time × Call)}
    (h : Sparing c s calls) : SameWithin c s (s.after calls) := by
  induction calls generalizing s with
  | nil => exact .refl c s
  | cons k rest ih => exact (sameWithin_run hc h.1 k.1).trans (ih h.2)

/-! Every store that calls lead to is filed. -/

theorem filed_settled_table {d : Database} (r : Except Fault Database) :
    ((table d).settled (r.map .table)).2.Filed := by
  cases r <;> trivial

theorem filed_settled_memory {m : Memory} (hs : (memory m).Filed) {r : Except Fault Memory}
    (h : ∀ m', r = .ok m' → (memory m').Filed) : ((memory m).settled (r.map .memory)).2.Filed := by
  cases r with
  | ok m' => exact h m' rfl
  | error e => exact hs

/-- No call puts a document or chunks under a wrong id. -/
theorem Filed.run {s : Store} (hs : s.Filed) (now : Time) (call : Call) : (s.run now call).2.Filed := by
  cases s with
  | table d =>
    cases call with
    | put | delete | replace | deleteChunks | addLog | deleteLog => exact filed_settled_table _
    | _ => trivial
  | memory m =>
    cases call with
    | put doc => exact ⟨Keyed.forall_mem_put rfl hs.1, hs.2⟩
    | delete id =>
      refine filed_settled_memory hs fun m' h => ?_
      rw [Memory.delete] at h
      split at h <;> cases h
      exact ⟨fun e he => hs.1 e (List.mem_of_mem_filter he), Keyed.nodup_keys_erase hs.2⟩
    | replace id cs =>
      refine filed_settled_memory hs fun m' h => ?_
      rw [Memory.replace] at h
      split at h <;> cases h
      refine ⟨hs.1, ?_⟩
      dsimp only
      split
      · exact Keyed.nodup_keys_erase hs.2
      · exact Keyed.nodup_keys_put hs.2
    | deleteChunks id => exact ⟨hs.1, Keyed.nodup_keys_erase hs.2⟩
    | deleteLog id =>
      refine filed_settled_memory hs fun m' h => ?_
      rw [Memory.deleteLog] at h
      split at h <;> cases h
      exact hs
    | _ => exact hs

theorem Filed.after {s : Store} (hs : s.Filed) (calls : List (Time × Call)) : (s.after calls).Filed := by
  induction calls generalizing s with
  | nil => exact hs
  | cons k rest ih => exact ih (hs.run k.1 k.2)

end Store

end Compendium
