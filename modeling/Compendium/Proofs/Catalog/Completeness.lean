import Compendium.Proofs.Catalog.Upkeep
import Compendium.Proofs.Segment.Lossless
import Compendium.Proofs.Service.Bootstrap
import Compendium.Proofs.Store.Category

/-!
When a rebuild makes the index complete. A document of blanks has no segments, so no rebuild gives it chunks and it is
never counted as indexed; a rebuild in which nothing fails gives chunks to all other documents.
-/
namespace Compendium

open Compendium.Action (runOn runOn_bind runOn_bind_ok Leads Frame)

namespace Store

/-! Stores that calls lead to. -/

/-- Stores that come of new ones by calls, and by opening a database with the rows of another. -/
inductive Grown : Store → Prop where
  | new {s : Store} (h : s.New) : Grown s
  | call {s : Store} (h : Grown s) (now : Time) (call : Call) : Grown (s.run now call).2
  | reopened {d : Database} (h : Grown (.table d)) (path : String) : Grown (.table { path := path, tables := d.tables })

def opened : Store → Store
  | .memory m => .memory m
  | .table d => .table { d with isOpen := true }

/-- Chunks lie under their documents, and could be read if the store were open. -/
structure Housed (s : Store) : Prop where
  sound : s.opened.Sound
  filed : s.Filed
  owned : s.Owned

theorem Sound.opened_eq {s : Store} (h : s.Sound) : s.opened = s := by
  cases s with
  | memory m => rfl
  | table d =>
    obtain ⟨path, isOpen, tables⟩ := d
    obtain rfl : isOpen = true := h.1
    rfl

/-- A store is sound, or it is a closed database that nothing changes any more. -/
theorem Housed.sound_or_shut {s : Store} (h : s.Housed) : s.Sound ∨ ∃ d, s = .table d ∧ d.isOpen = false := by
  cases s with
  | memory m => exact .inl h.sound
  | table d =>
    cases hopen : d.isOpen with
    | true => exact .inl ⟨hopen, h.sound.2⟩
    | false => exact .inr ⟨d, rfl, hopen⟩

/-- A closed database stays as it is, whatever is asked of it. -/
theorem run_shut {d : Database} (h : d.isOpen = false) (now : Time) (call : Call) :
    ((table d).run now call).2 = .table d := by
  obtain ⟨path, isOpen, tables⟩ := d
  cases h
  cases call with
  | replace id cs =>
    dsimp only [run, Store.replace, Database.replace]
    cases cs.mapM (ChunkRow.ofChunk now id) <;> rfl
  | _ => rfl

theorem LogsAside.sound_owned {s s' : Store} (h : LogsAside s s') (hs : s.Sound) (ho : s.Owned) :
    s'.Sound ∧ s'.Owned := by
  cases h <;> exact ⟨hs, ho⟩

/-- One call to a sound store. -/
theorem sound_owned_run {s : Store} (hs : s.Sound) (ho : s.Owned) (now : Time) {call : Call} (hc : call ≠ .close) :
    (s.run now call).2.Sound ∧ (s.run now call).2.Owned := by
  have hsettled {r : Except Fault Store} (h : ∀ s', r = .ok s' → s'.Sound ∧ s'.Owned) :
      (s.settled r).2.Sound ∧ (s.settled r).2.Owned :=
    settled_rel (R := fun _ t => t.Sound ∧ t.Owned) ⟨hs, ho⟩ h
  cases call with
  | put doc =>
    refine hsettled fun s' h => ?_
    obtain ⟨t, ht, hin⟩ := put_outcome hs now doc
    cases h.symm.trans ht
    exact ⟨hin.sound, ho.put hs h⟩
  | delete id => exact hsettled fun s' h => ⟨(emptied_delete hs h).sound, ho.emptied (emptied_delete hs h)⟩
  | replace id cs => exact hsettled fun s' h => ⟨(replace_outcome hs h).sound, ho.replace hs h⟩
  | deleteChunks id =>
    exact hsettled fun s' h => ⟨(emptied_deleteChunks hs h).sound, ho.emptied (emptied_deleteChunks hs h)⟩
  | addLog l => exact hsettled fun s' h => (logsAside_addLog h).sound_owned hs ho
  | deleteLog id => exact hsettled fun s' h => (logsAside_deleteLog h).sound_owned hs ho
  | close => exact absurd rfl hc
  | _ => exact ⟨hs, ho⟩

/-- No call takes chunks away from under their documents. -/
theorem Housed.run {s : Store} (h : s.Housed) (now : Time) (call : Call) : (s.run now call).2.Housed := by
  rcases h.sound_or_shut with hs | ⟨d, rfl, hshut⟩
  · by_cases hc : call = .close
    · subst hc
      cases s with
      | memory m => exact h
      | table d => exact ⟨h.sound, trivial, h.owned⟩
    · obtain ⟨hsound, howned⟩ := sound_owned_run hs h.owned now hc
      exact ⟨hsound.opened_eq.symm ▸ hsound, h.filed.run now call, howned⟩
  · rwa [run_shut hshut]

theorem Grown.housed {s : Store} (h : s.Grown) : s.Housed := by
  induction h with
  | new h => exact ⟨h.sound.opened_eq.symm ▸ h.sound, h.filed, h.owned⟩
  | call _ now call ih => exact ih.run now call
  | reopened _ path ih => exact ⟨ih.sound, trivial, ih.owned⟩

/-- A store that answers is sound. -/
theorem Housed.sound_of_ids {s : Store} (h : s.Housed) {l : List String} (hl : (ids s).outcome = .ok l) : s.Sound := by
  rcases h.sound_or_shut with hs | ⟨d, rfl, hshut⟩
  · exact hs
  · simp [ids, Database.ids, Database.reading, hshut] at hl

/-- What is counted: the documents, and those that have chunks. -/
theorem Housed.counts {s : Store} (h : s.Housed) (hs : s.Sound) :
    (documentCount s).outcome = .ok s.sources.length ∧
      (indexedCount s).outcome = .ok (s.sources.filter fun x => !(s.piecesOf x.id).isEmpty).length := by
  have hindexed : ∃ l : List String, (indexedCount s).outcome = .ok l.length ∧ l.Nodup ∧
      ∀ id, id ∈ l ↔ s.piecesOf id ≠ [] := by
    cases s with
    | memory m => exact indexed_memory h.filed.2
    | table d => exact indexed_table hs.1
  obtain ⟨l, hl, hnodup, hmem⟩ := hindexed
  constructor
  · cases s with
    | memory m => simp [documentCount, sources]
    | table d => simp [documentCount, Database.documentCount, Database.reading, sources, hs.1]
  · rw [hl, length_filter_of_keys Source.id (nodup_sources hs) hnodup fun id => ?_]
    rw [hmem]
    constructor
    · intro hne
      obtain ⟨x, hx, rfl⟩ := h.owned id hne
      exact ⟨x, hx, by simpa using hne, rfl⟩
    · rintro ⟨x, -, hne, rfl⟩
      simpa using hne

end Store

namespace Catalog

def StaysGrown (b b' : Base) : Prop := b.store.Grown → b'.store.Grown

theorem frame_staysGrown : Frame StaysGrown where
  refl _ h := h
  trans h h' hs := h' (h hs)
  noting _ _ h := h

theorem staysGrown_reindex (ix : Indexer) (id : String) : Leads StaysGrown (ix.reindex id) := fun b hs => by
  rcases Indexer.runOn_reindex (rfl : runOn (ix.reindex id) b = (_, _)) with ⟨e, -, hu⟩ | ⟨r, d, -, -, -, hd⟩
  · exact hu.store ▸ hs
  · obtain ⟨now, hr⟩ := hd.replaced
    have hcall := hs.call now (.replace r.document r.chunks)
    rwa [Store.run, hr] at hcall

/-- After a rebuild in which nothing failed all documents count as indexed, but those of blanks. -/
theorem coverage_of_clean_rebuild {b b' : Base} (hs : b.store.Grown) {ix : Indexer} {p : Progress}
    {updates : List Progress} (h : runOn ix.rebuild b = (.ok (p, updates), b')) (hp : p.Clean) :
    b.store.Sound ∧ (runOn coverage b').1 =
      .ok ⟨b.store.sources.length, (b.store.sources.filter fun x => !Text.isBlankText x.content).length⟩ := by
  -- A closed database would not have told the ids that the rebuild begins with.
  obtain ⟨l, c, hids, -⟩ := runOn_bind_ok.1 h
  rw [Action.runOn_readStore] at hids
  have hsound := hs.housed.sound_of_ids (Prod.mk.inj hids).1
  have hkept := (Indexer.keeps_rebuild ix).of_run h hsound
  have hgrown := (Indexer.leads_rebuild frame_staysGrown ix (staysGrown_reindex ix)).of_run h hs
  have hchunks : ∀ x ∈ b.store.sources, (b'.store.piecesOf x.id).isEmpty = Text.isBlankText x.content := by
    intro x hx
    have htexts := (Indexer.rebuild_remade h hp hsound x hx).texts
    rw [Bool.eq_iff_iff, List.isEmpty_iff, ← Segment.segmentText_eq_nil_iff ix.budget, ← htexts,
      List.map_eq_nil_iff]
  obtain ⟨htotal, hindexed⟩ := hgrown.housed.counts hkept.sound
  rw [hkept.sources] at htotal hindexed
  rw [List.filter_congr fun x hx => by rw [hchunks x hx]] at hindexed
  refine ⟨hsound, ?_⟩
  simp only [coverage, runOn_bind, Action.runOn_readStore, htotal, Base.noting_store, hindexed, Action.runOn_pure]

/-- All of a whole is a hundred percent, however the arithmetic rounds. -/
theorem percent_eq_hundred {K : Type} [LinearOrder K] [Field K] [IsStrictOrderedRing K] (r : Number.Rounding K)
    {c : Coverage} (h : c.indexed = c.total) :
    letI := r.scalar
    c.percent = (100 : K) := by
  have hcast : ((100 : Nat) : K) = 100 := Nat.cast_ofNat
  have hwhole : r.round ((100 : Nat) : K) = (100 : Nat) := r.whole 100 (by decide)
  dsimp only [Coverage.percent]
  rw [← hcast]
  split
  next => exact hwhole
  next h0 =>
    rw [h, r.ratio_self (Nat.pos_of_ne_zero h0)]
    change r.round (1 * r.round (100 : Nat)) = (100 : Nat)
    rw [hwhole, one_mul, hwhole]

/-- An index is complete if there are documents, and all of them are indexed. -/
theorem isComplete_iff {c : Coverage} (h : c.indexed ≤ c.total) :
    c.isComplete = true ↔ 0 < c.total ∧ c.indexed = c.total := by
  rw [Coverage.isComplete, Bool.and_eq_true, decide_eq_true_eq, decide_eq_true_eq, h.ge_iff_eq]

/-- A rebuild without a failed document and without a skipped segment leaves a store that counts its documents and has
chunks of each one exactly if none of them is blank. Then all of them, a hundred percent, are indexed, and the index is
complete unless there are no documents at all. -/
theorem clean_rebuild_complete_iff {b b' : Base} (hs : b.store.Grown) {ix : Indexer} {p : Progress}
    {updates : List Progress} (h : runOn ix.rebuild b = (.ok (p, updates), b')) (hp : p.Clean) :
    ∃ c, (runOn coverage b').1 = .ok c ∧ (Store.documentCount b.store).outcome = .ok c.total ∧
      (c.indexed = c.total ↔ ∀ d, b.store.Holds d → Text.isBlankText d.content = false) ∧
      (c.isComplete = true ↔
        (∃ d, b.store.Holds d) ∧ ∀ d, b.store.Holds d → Text.isBlankText d.content = false) ∧
      ((∀ d, b.store.Holds d → Text.isBlankText d.content = false) →
        ∀ r : Number.Rounding ℚ, letI := r.scalar; c.percent = (100 : ℚ)) := by
  obtain ⟨hsound, hcoverage⟩ := coverage_of_clean_rebuild hs h hp
  have hall : (b.store.sources.filter fun x => !Text.isBlankText x.content).length = b.store.sources.length ↔
      ∀ d, b.store.Holds d → Text.isBlankText d.content = false := by
    simp only [List.length_filter_eq_length_iff, Bool.not_eq_true']
    constructor
    · exact fun hx d hd => hx d.source (hd.mem hsound)
    · intro hd x hx
      obtain ⟨d, hfound, rfl⟩ := Store.document_of_mem hsound hx
      exact hd d hfound
  have hsome : 0 < b.store.sources.length ↔ ∃ d, b.store.Holds d := by
    rw [List.length_pos_iff_exists_mem]
    constructor
    · rintro ⟨x, hx⟩
      obtain ⟨d, hfound, rfl⟩ := Store.document_of_mem hsound hx
      exact ⟨d, hfound⟩
    · exact fun ⟨d, hd⟩ => ⟨d.source, hd.mem hsound⟩
  refine ⟨_, hcoverage, (hs.housed.counts hsound).1, hall, ?_, fun hd r => percent_eq_hundred r (hall.2 hd)⟩
  rw [isComplete_iff (List.length_filter_le _ _), hall, hsome]

/-- A store in memory that took in documents with some ids and contents; every text has a vector. -/
def holding (documents : List (String × String)) : Base where
  store := documents.foldl (fun s d => (s.run default (.put ⟨d.1, "C", d.1, d.2, "", none, none⟩)).2) Store.empty
  provider := fun _ _ => .vector []

theorem grown_holding (documents : List (String × String)) : (holding documents).store.Grown := by
  have hgrown : ∀ (ds : List (String × String)) (s : Store), s.Grown →
      (ds.foldl (fun s d => (s.run default (.put ⟨d.1, "C", d.1, d.2, "", none, none⟩)).2) s).Grown := by
    intro ds
    induction ds with
    | nil => exact fun _ h => h
    | cons d ds ih => exact fun s h => ih _ (h.call _ _)
  exact hgrown documents Store.empty (.new .memory)

def oneDocument (content : String) : Base := holding [("a", content)]

theorem exists_clean_rebuild (ix : Indexer) (b : Base)
    (h : ((runOn ix.rebuild b).1.toOption.map fun q => (q.1.failed, q.1.skipped)) = some (0, 0)) :
    ∃ p updates, runOn ix.rebuild b = (.ok (p, updates), (runOn ix.rebuild b).2) ∧ p.Clean := by
  obtain ⟨⟨p, updates⟩, hrun, hclean⟩ := exists_of_toOption h
  exact ⟨p, updates, Prod.ext hrun rfl, Prod.mk.inj hclean⟩

/-- A knowledge base with two documents, one of them with two sections, can be rebuilt; then the index is complete. -/
theorem clean_rebuild_complete_iff_sections :
    let b := holding [("a", "# A\nx\n# B\ny\n"), ("b", "z")]
    b.store.Grown ∧
      ∃ p updates b', runOn Service.small.indexer.rebuild b = (.ok (p, updates), b') ∧ p.Clean ∧
        (b'.store.piecesOf "a").map Piece.text = ["# A\nx", "# B\ny"] ∧
        (b'.store.piecesOf "b").map Piece.text = ["z"] ∧
        ∃ c, (runOn coverage b').1 = .ok c ∧ c.total = 2 ∧ c.indexed = c.total ∧ c.isComplete = true := by
  intro b
  have hs : b.store.Grown := grown_holding _
  have hsound := hs.housed.sound
  have hready : Indexer.Ready Service.small.indexer b :=
    ⟨hsound, fun _ hi => absurd hi List.not_mem_nil, fun _ _ => ⟨[], rfl⟩, fun _ => ⟨rfl, rfl⟩,
      fun _ _ => trivial⟩
  obtain ⟨p, updates, b', hrun, hclean⟩ := Indexer.rebuild_answered hready
  have hmade := Indexer.rebuild_remade hrun hclean hsound
  have hinked : ∀ d, b.store.Holds d → Text.isBlankText d.content = false := by
    intro d hd
    have hmem : d.source ∈ [(⟨"a", "C", "a", "# A\nx\n# B\ny\n", ""⟩ : Source), ⟨"b", "C", "b", "z", ""⟩] :=
      hd.mem hsound
    rcases List.mem_pair.1 hmem with hsource | hsource
    · rw [show d.content = "# A\nx\n# B\ny\n" from congrArg Source.content hsource]
      decide
    · rw [show d.content = "z" from congrArg Source.content hsource]
      decide
  obtain ⟨c, hc, htotal, hindexed, hcomplete, -⟩ := clean_rebuild_complete_iff hs hrun hclean
  have hsome : ∃ d, b.store.Holds d := ⟨⟨"b", "C", "b", "z", "", none, none⟩, rfl⟩
  refine ⟨hs, p, updates, b', hrun, hclean, ?_, ?_, c, hc, (Except.ok.inj htotal).symm, hindexed.2 hinked,
    hcomplete.2 ⟨hsome, hinked⟩⟩
  · exact (hmade ⟨"a", "C", "a", "# A\nx\n# B\ny\n", ""⟩ List.mem_cons_self).texts.trans (by decide +kernel)
  · exact (hmade ⟨"b", "C", "b", "z", ""⟩ (List.mem_cons_of_mem _ List.mem_cons_self)).texts.trans
      (by decide +kernel)

/-- A document of blanks is rebuilt without complaint, and stays without chunks. -/
theorem blank_document_stays_unindexed :
    (oneDocument " ").store.Grown ∧
      ∃ p updates b', runOn Service.small.indexer.rebuild (oneDocument " ") = (.ok (p, updates), b') ∧ p.Clean ∧
        ∃ c, (runOn coverage b').1 = .ok c ∧ c.total = 1 ∧ c.indexed = 0 ∧ c.isComplete = false := by
  obtain ⟨p, updates, hrun, hclean⟩ :=
    exists_clean_rebuild Service.small.indexer (oneDocument " ") (by decide +kernel)
  obtain ⟨c, hc, hcounts⟩ := exists_of_toOption (f := fun c : Coverage => (c.total, c.indexed, c.isComplete))
    (v := (1, 0, false)) (r := (runOn coverage (runOn Service.small.indexer.rebuild (oneDocument " ")).2).1)
    (by decide +kernel)
  simp only [Prod.mk.injEq] at hcounts
  exact ⟨grown_holding _, p, updates, _, hrun, hclean, c, hc, hcounts⟩

end Catalog

end Compendium
