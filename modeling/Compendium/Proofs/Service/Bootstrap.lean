import Compendium.Proofs.Catalog.Scan
import Compendium.Proofs.Index.Batch
import Compendium.Service

/-!
When bringing the index up to date does so. A document that an earlier scan
took in and nobody indexed is not reported again, and the next bootstrap
passes it over; the index is up to date afterwards exactly when there was no
such document or no index at all.
-/
namespace Compendium

open Compendium.Action (runOn runOn_bind runOn_bind_ok Leads Frame)
open Indexer (Remade Swept)

namespace Store

theorem chunkCount_outcome {s : Store} (h : s.Sound) : ∃ n, (chunkCount s).outcome = .ok n := by
  cases s with
  | memory m => exact ⟨m.chunkCount, rfl⟩
  | table d => exact ⟨_, by simp only [chunkCount, Database.chunkCount, Database.reading, h.1, if_true]; rfl⟩

def Holds (s : Store) (d : Document) : Prop := (document d.id s).outcome = .ok d

/-- The chunks of a document are the segments of its text. -/
def Fresh (budget : Segment.Budget) (s : Store) (d : Document) : Prop :=
  ∃ cs, (chunksOf d.id s).outcome = .ok cs ∧ cs.map Chunk.text = Segment.segmentText budget d.content

/-- All documents have the chunks that belong to them. -/
def UpToDate (budget : Segment.Budget) (s : Store) : Prop := ∀ d, s.Holds d → s.Fresh budget d

theorem fresh_iff {s : Store} (h : s.Sound) (budget : Segment.Budget) (d : Document) :
    s.Fresh budget d ↔ (s.piecesOf d.id).map Piece.text = Segment.segmentText budget d.content := by
  obtain ⟨cs, hcs, hp⟩ := chunksOf_outcome h d.id
  have htexts : cs.map Chunk.text = (s.piecesOf d.id).map Piece.text := by
    rw [← hp, List.map_map]
    rfl
  rw [← htexts]
  constructor
  · rintro ⟨cs', hcs', ht⟩
    cases hcs.symm.trans hcs'
    exact ht
  · exact fun ht => ⟨cs, hcs, ht⟩

theorem Holds.mem {s : Store} (h : s.Sound) {d : Document} (hd : s.Holds d) : d.source ∈ s.sources :=
  (document_outcome h hd).1

/-- Whether documents are fresh can be read off the sources. -/
theorem forall_fresh_iff {s : Store} (h : s.Sound) (budget : Segment.Budget) (P : String → Prop) :
    (∀ d, s.Holds d → P d.id → s.Fresh budget d) ↔
      ∀ x ∈ s.sources, P x.id → (s.piecesOf x.id).map Piece.text = Segment.segmentText budget x.content := by
  constructor
  · intro hf x hx hp
    obtain ⟨d, hd, rfl⟩ := document_of_mem h hx
    exact (fresh_iff h budget d).1 (hf d hd hp)
  · intro hf d hd hp
    exact (fresh_iff h budget d).2 (hf d.source (hd.mem h) hp)

/-- The index is up to date if the texts of all chunks are those of the segments. -/
theorem upToDate_iff {s : Store} (h : s.Sound) (budget : Segment.Budget) :
    s.UpToDate budget ↔
      ∀ x ∈ s.sources, (s.piecesOf x.id).map Piece.text = Segment.segmentText budget x.content := by
  have := forall_fresh_iff h budget fun _ => True
  simpa only [UpToDate, forall_const] using this

end Store

namespace Service

theorem runOn_hasIndex {b : Base} (hs : b.store.Sound) :
    ∃ n es, (Store.chunkCount b.store).outcome = .ok n ∧
      runOn Indexer.hasIndex b = (.ok (decide (0 < n)), b.noting es) := by
  obtain ⟨n, hn⟩ := Store.chunkCount_outcome hs
  have hread : runOn (Action.readStore Store.chunkCount) b = (.ok n, b.noting _) := hn ▸ Action.runOn_readStore _ _
  exact ⟨n, _, hn, runOn_bind_ok.2 ⟨n, _, hread, rfl⟩⟩

theorem runOn_log {message : String} {fields : List (String × Json)} {b c : Base} {es : List Entry}
    {r : Except Fault Unit} (h : runOn (log message fields) (b.noting es) = (r, c)) :
    r = .ok () ∧ ∃ es', c = b.noting es' := by
  cases h
  exact ⟨rfl, _, Base.noting_noting b es _⟩

/-- The ways in which a bootstrap can end well after its scan. -/
inductive Course (s : Service) (changed : List String) (c : Base) (p : Progress) (b' : Base) : Prop where
  | built (empty : (Store.chunkCount c.store).outcome = .ok 0) (es : List Entry) (updates : List Progress)
      (work : runOn s.indexer.rebuild (c.noting es) = (.ok (p, updates), b'))
  | idle {n : Nat} (count : (Store.chunkCount c.store).outcome = .ok n) (some_ : 0 < n) (es : List Entry)
      (nothing : changed = []) (end_ : b' = c.noting es)
  | updated {n : Nat} (count : (Store.chunkCount c.store).outcome = .ok n) (some_ : 0 < n) (es : List Entry)
      (work : runOn (s.indexer.reindexMany changed s.mostFailures) (c.noting es) = (.ok p, b'))

/-- A bootstrap that goes well has scanned the files, and then taken its course. -/
theorem bootstrap_ok {s : Service} {b b' : Base} {p : Progress} (hs : b.store.Sound)
    (h : runOn s.bootstrap b = (.ok p, b')) :
    ∃ changed c, runOn (Catalog.scan s.root) b = (.ok changed, c) ∧ Course s changed c p b' := by
  obtain ⟨changed, c, hscan, h⟩ := runOn_bind_ok.1 h
  have hc : c.store.Sound := (Catalog.leads_scan Catalog.admits_staysSound s.root).of_run hscan hs
  obtain ⟨n, es, hn, hindex⟩ := runOn_hasIndex hc
  obtain ⟨has, c', hhas, h⟩ := runOn_bind_ok.1 h
  cases hindex.symm.trans hhas
  refine ⟨changed, c, hscan, ?_⟩
  by_cases h0 : 0 < n
  · simp only [h0, decide_true, Bool.not_true, Bool.false_eq_true, if_false] at h
    cases changed with
    | nil =>
      obtain ⟨u, c', hlog, h⟩ := runOn_bind_ok.1 h
      obtain ⟨-, es', rfl⟩ := runOn_log hlog
      cases h
      exact .idle hn h0 es' rfl rfl
    | cons id rest =>
      obtain ⟨u, c', hlog, h⟩ := runOn_bind_ok.1 h
      obtain ⟨-, es', rfl⟩ := runOn_log hlog
      exact .updated hn h0 es' h
  · simp only [h0, decide_false, Bool.not_false, if_true] at h
    obtain ⟨u, c', hlog, h⟩ := runOn_bind_ok.1 h
    obtain ⟨-, es', rfl⟩ := runOn_log hlog
    obtain ⟨⟨q, updates⟩, c', hwork, h⟩ := runOn_bind_ok.1 h
    cases h
    rw [Nat.eq_zero_of_not_pos h0] at hn
    exact .built hn es' updates hwork

/-! Runs of edits, scans and bootstraps. -/

structure Surroundings where
  clock : Nat
  files : Tree
  provider : Provider
  refusals : Refusals

/-- What happens to a knowledge base. Scans and bootstraps may fail; one that is cut off has scanned its first
files, and reindexed some documents, and no more. -/
inductive Event where
  | outside (w : Surroundings)
  | scan
  | scanFirst (files : Nat)
  | reindex (id : String)
  | bootstrap

def scanFirst (root : Path) (files : Nat) : Action (List String) := do
  Action.writeFiles fun t => t.makeDirectories root
  Catalog.scanFiles root ((← Catalog.filesBelow root).take files)

def perform (s : Service) (b : Base) : Event → Base
  | .outside w => { b with clock := w.clock, files := w.files, provider := w.provider, refusals := w.refusals }
  | .scan => (runOn (Catalog.scan s.root) b).2
  | .scanFirst n => (runOn (scanFirst s.root n) b).2
  | .reindex id => (runOn (s.indexer.reindex id) b).2
  | .bootstrap => (runOn s.bootstrap b).2

def after (s : Service) (start : Base) (events : List Event) : Base := events.foldl s.perform start

open Catalog (StaysSound admits_staysSound)

theorem leads_scanFirst (root : Path) (n : Nat) : Leads StaysSound (scanFirst root n) :=
  have hf := admits_staysSound.toFrame
  Action.leads_bind hf (Catalog.leads_writeFiles admits_staysSound _) fun _ =>
    Action.leads_bind hf (Catalog.leads_filesBelow hf root) fun _ =>
      Catalog.leads_scanFiles admits_staysSound root _

/-- What a scan and reindexing one document leave as it is, a bootstrap leaves as it is. -/
theorem leads_bootstrap_of {R : Base → Base → Prop} (hR : Catalog.Admits R) (s : Service)
    (h : ∀ id, Leads R (s.indexer.reindex id)) : Leads R s.bootstrap := by
  have hf := hR.toFrame
  refine Action.leads_bind hf (Catalog.leads_scan hR s.root) fun changed => ?_
  refine Action.leads_bind hf
    (Action.leads_bind hf (Action.leads_readStore hf _) fun _ => Action.leads_pure hf _) fun has => ?_
  have hlog := fun message fields => Action.leads_log hf .info "service" "bootstrap" message fields
  split
  · exact Action.leads_bind hf (hlog _ _) fun _ =>
      Action.leads_bind hf (Indexer.leads_rebuild hf s.indexer h) fun _ => Action.leads_pure hf _
  · split
    · exact Action.leads_bind hf (hlog _ _) fun _ => Action.leads_pure hf _
    · exact Action.leads_bind hf (hlog _ _) fun _ =>
        Indexer.leads_reindexMany hf s.indexer changed s.mostFailures fun id _ => h id

theorem staysSound_reindex (ix : Indexer) (id : String) : Leads StaysSound (ix.reindex id) :=
  fun b hs => (Indexer.keeps_reindex ix (show id ∈ Set.univ from trivial) b hs).sound

theorem leads_bootstrap (s : Service) : Leads StaysSound s.bootstrap :=
  leads_bootstrap_of admits_staysSound s (staysSound_reindex s.indexer)

theorem perform_sound (s : Service) (b : Base) (e : Event) : StaysSound b (s.perform b e) := by
  cases e with
  | outside w => exact id
  | scan => exact Catalog.leads_scan admits_staysSound s.root b
  | scanFirst n => exact leads_scanFirst s.root n b
  | reindex i => exact staysSound_reindex s.indexer i b
  | bootstrap => exact leads_bootstrap s b

/-- Whatever happens, the store stays sound. -/
theorem after_sound (s : Service) (events : List Event) :
    ∀ {b : Base}, b.store.Sound → (s.after b events).store.Sound := by
  induction events with
  | nil => exact id
  | cons e rest ih => exact fun hs => ih (perform_sound s _ e hs)

/-- The scan of a base leaves nothing behind: it finds no index, or it reports every document that is not fresh. -/
def Covered (s : Service) (b : Base) : Prop :=
  ∃ changed c, runOn (Catalog.scan s.root) b = (.ok changed, c) ∧
    ((Store.chunkCount c.store).outcome = .ok 0 ∨
      ∀ d, c.store.Holds d → d.id ∉ changed → c.store.Fresh s.indexer.budget d)

/-- With an index, a scan leaves nothing behind if it reports each document that is not fresh. -/
theorem covered_iff {s : Service} {b c : Base} {changed : List String} {n : Nat}
    (hscan : runOn (Catalog.scan s.root) b = (.ok changed, c)) (hn : (Store.chunkCount c.store).outcome = .ok n)
    (h0 : 0 < n) : s.Covered b ↔ ∀ d, c.store.Holds d → d.id ∉ changed →
      c.store.Fresh s.indexer.budget d := by
  constructor
  · rintro ⟨changed', c', hscan', h⟩
    cases hscan.symm.trans hscan'
    rcases h with h | h
    · cases hn.symm.trans h
      exact absurd h0 (Nat.lt_irrefl 0)
    · exact h
  · exact fun h => ⟨changed, c, hscan, .inr h⟩

/-- After a bootstrap in which nothing fails the index is up to date exactly when its scan left nothing behind. -/
theorem bootstrap_upToDate_iff {s : Service} {b b' : Base} {p : Progress} (hs : b.store.Sound)
    (h : runOn s.bootstrap b = (.ok p, b')) (hp : p.Clean) :
    b'.store.UpToDate s.indexer.budget ↔ s.Covered b := by
  obtain ⟨changed, c, hscan, hcourse⟩ := bootstrap_ok hs h
  have hc : c.store.Sound := (Catalog.leads_scan Catalog.admits_staysSound s.root).of_run hscan hs
  cases hcourse with
  | built empty es updates work =>
    have hk := (Indexer.keeps_rebuild s.indexer).of_run work hc
    refine ⟨fun _ => ⟨changed, c, hscan, .inl empty⟩, fun _ => (Store.upToDate_iff hk.sound _).2 fun x hx => ?_⟩
    exact (Indexer.rebuild_remade work hp hc x (hk.sources ▸ hx)).texts
  | idle count some_ es nothing end_ =>
    subst nothing end_
    rw [covered_iff hscan count some_]
    exact ⟨fun hu d hd _ => hu d hd, fun hu d hd => hu d hd List.not_mem_nil⟩
  | updated count some_ es work =>
    have hswept := Indexer.reindexMany_swept work hp
    have hk := hswept.kept hc
    rw [covered_iff hscan count some_, Store.upToDate_iff hk.sound,
      Store.forall_fresh_iff hc s.indexer.budget (· ∉ changed), hk.sources]
    constructor
    · intro hu x hx hi
      rw [← hu x hx, hk.others x.id hi]
      rfl
    · intro hu x hx
      by_cases hi : x.id ∈ changed
      · exact (hswept.remade hc x hx hi).texts
      · rw [hk.others x.id hi]
        exact hu x hx hi

/-- From an empty store, whatever was edited, scanned, left out or failed before: a bootstrap in which nothing fails
leaves every document with its chunks exactly when its scan finds no index or reports every document without them. -/
theorem recovery_iff (s : Service) (start : Base) (hnew : start.store.New) (events : List Event) (p : Progress)
    (b' : Base) (h : runOn s.bootstrap (s.after start events) = (.ok p, b')) (hp : p.Clean) :
    b'.store.UpToDate s.indexer.budget ↔ s.Covered (s.after start events) :=
  bootstrap_upToDate_iff (after_sound s events hnew.sound) h hp

/-! A knowledge base with one file. -/

def small : Service := { root := ⟨0, ["kb"]⟩ }

/-- The one file holds some text, every text has a vector, and no call is refused. -/
def around (content : String) : Surroundings where
  clock := firstMoment
  files := ⟨[(["kb"], .directory), (["kb", "a.md"], .file (.text content))]⟩
  provider := fun _ _ => .vector []
  refusals := {}

theorem exists_clean (work : Action Progress) (b : Base)
    (h : ((runOn work b).1.toOption.map fun p => (p.failed, p.skipped)) = some (0, 0)) :
    ∃ p, runOn work b = (.ok p, (runOn work b).2) ∧ p.Clean := by
  obtain ⟨p, hp, hclean⟩ := exists_of_toOption h
  exact ⟨p, Prod.ext hp rfl, Prod.mk.inj hclean⟩

/-- A new knowledge base with one file is bootstrapped. -/
theorem recovery_iff_small :
    ∃ p b', runOn small.bootstrap (small.after {} [.outside (around "x")]) = (.ok p, b') ∧ p.Clean ∧
      (b'.store.UpToDate small.indexer.budget ↔ small.Covered (small.after {} [.outside (around "x")])) := by
  obtain ⟨p, h, hp⟩ := exists_clean small.bootstrap (small.after {} [.outside (around "x")]) (by decide +kernel)
  exact ⟨p, _, h, hp, recovery_iff small {} .memory _ p _ h hp⟩

/-- A file that is edited and scanned between two bootstraps keeps the chunks of its old text. -/
theorem edit_scanned_before_bootstrap_stays_stale :
    ∃ p b', runOn small.bootstrap
        (small.after {} [.outside (around "x"), .bootstrap, .outside (around "y"), .scan]) = (.ok p, b') ∧
      p.Clean ∧ ¬ b'.store.UpToDate small.indexer.budget := by
  let b : Base := small.after {} [.outside (around "x"), .bootstrap, .outside (around "y"), .scan]
  obtain ⟨p, h, hp⟩ := exists_clean small.bootstrap b (by decide +kernel)
  refine ⟨p, _, h, hp, fun hu => ?_⟩
  have hs : (runOn small.bootstrap b).2.store.Sound :=
    leads_bootstrap small b (after_sound small _ Store.New.memory.sound)
  have hsource : (⟨"id-0001", "uncategorized", "a", "y", "kb/a.md"⟩ : Source) ∈
      (runOn small.bootstrap b).2.store.sources := by decide +kernel
  have htexts : ((runOn small.bootstrap b).2.store.piecesOf "id-0001").map Piece.text = ["x"] := by decide +kernel
  have hsegments : Segment.segmentText small.indexer.budget "y" = ["y"] := by decide +kernel
  have := (Store.upToDate_iff hs _).1 hu _ hsource
  rw [htexts, hsegments] at this
  exact absurd this (by decide)

end Service

end Compendium
