import Compendium.Proofs.Files.Tree
import Compendium.Proofs.Service.Bootstrap

/-!
Bringing an index up to date again and again gives what building it anew would
give, as long as nothing fails on the way. Each round only asks for the
vectors of the documents that its scan reports.
-/
namespace Compendium

open Compendium.Action (runOn runOn_bind runOn_bind_ok)
open Indexer (Remade Swept Ready)

namespace Indexer

def fixedProvider (f : String → Embedding) : Provider := fun _ text => .vector (f text)

/-- When vectors come from the text alone, there is one way to make the chunks of a document. -/
theorem Remade.unique {budget : Segment.Budget} {f : String → Embedding} {x : Source} {ps qs : List Piece}
    (hp : Remade budget (fixedProvider f) x ps) (hq : Remade budget (fixedProvider f) x qs) : ps = qs := by
  have htexts : ps.map Piece.text = qs.map Piece.text := hp.texts.trans hq.texts.symm
  have hlen : ps.length = qs.length := by simpa using congrArg List.length htexts
  have hindexes : ps.map Piece.index = qs.map Piece.index := by rw [hp.indexes, hq.indexes, hlen]
  have hvector : ∀ {rs : List Piece}, Remade budget (fixedProvider f) x rs →
      ∀ r ∈ rs, r.vector = some (f (x.input r.text)) := by
    intro rs hr r hm
    obtain ⟨past, v, hv, hs⟩ := hr.vectors r hm
    cases hv
    exact hs
  refine List.ext_getElem hlen fun i h₁ h₂ => ?_
  have ht : ps[i].text = qs[i].text := by simpa [h₁, h₂] using congrArg (·[i]?) htexts
  have hi : ps[i].index = qs[i].index := by simpa [h₁, h₂] using congrArg (·[i]?) hindexes
  have hv : ps[i].vector = qs[i].vector := by
    rw [hvector hp _ (List.getElem_mem h₁), hvector hq _ (List.getElem_mem h₂), ht]
  cases hps : ps[i]
  cases hqs : qs[i]
  simp_all

end Indexer

namespace Service

/-- When every document can be reindexed, nothing fails in a bootstrap whose scan goes through. -/
theorem bootstrap_answered {s : Service} {b c : Base} {changed : List String}
    (hscan : runOn (Catalog.scan s.root) b = (.ok changed, c)) (hc : Ready s.indexer c)
    (hids : ∀ id ∈ changed, ∃ x ∈ c.store.sources, x.id = id) :
    ∃ p b', runOn s.bootstrap b = (.ok p, b') ∧ p.Clean := by
  obtain ⟨n, es, -, hindex⟩ := runOn_hasIndex hc.sound
  have hlog : ∀ message fields, ∃ es',
      runOn (log message fields) (c.noting es) = (.ok (), (c.noting es).noting es') := fun _ _ => ⟨_, rfl⟩
  by_cases h0 : 0 < n
  · cases changed with
    | nil =>
      obtain ⟨es', hlog⟩ := hlog "Index is up to date" []
      refine ⟨{ status := .completed }, (c.noting es).noting es',
        runOn_bind_ok.2 ⟨_, _, hscan, runOn_bind_ok.2 ⟨_, _, hindex, ?_⟩⟩, rfl, rfl⟩
      simp only [h0, decide_true, Bool.not_true, Bool.false_eq_true, if_false]
      exact runOn_bind_ok.2 ⟨(), _, hlog, rfl⟩
    | cons id rest =>
      obtain ⟨es', hlog⟩ :=
        hlog "Incrementally indexing changed documents" [("documents", .nat (id :: rest).length)]
      obtain ⟨p, b', hwork, hp⟩ :=
        Indexer.reindexMany_answered ((hc.noting es).noting es') (id :: rest) s.mostFailures hids
      refine ⟨p, b', runOn_bind_ok.2 ⟨_, _, hscan, runOn_bind_ok.2 ⟨_, _, hindex, ?_⟩⟩, hp⟩
      simp only [h0, decide_true, Bool.not_true, Bool.false_eq_true, if_false]
      exact runOn_bind_ok.2 ⟨(), _, hlog, hwork⟩
  · obtain ⟨es', hlog⟩ := hlog "No index found, building from scratch" []
    obtain ⟨p, updates, b', hwork, hp⟩ := Indexer.rebuild_answered ((hc.noting es).noting es')
    refine ⟨p, b', runOn_bind_ok.2 ⟨_, _, hscan, runOn_bind_ok.2 ⟨_, _, hindex, ?_⟩⟩, hp⟩
    simp only [h0, decide_false, Bool.not_false, if_true]
    exact runOn_bind_ok.2 ⟨(), _, hlog, runOn_bind_ok.2 ⟨_, _, hwork, rfl⟩⟩

/-- Building the index anew goes through, and every document gets the chunks that it has: the same numbers, texts
and vectors. -/
def AsRebuilt (s : Service) (b : Base) : Prop :=
  ∃ p updates c, runOn s.indexer.rebuild b = (.ok (p, updates), c) ∧ p.Clean ∧
    ∀ d, b.store.Holds d → ∃ cs cs', (Store.chunksOf d.id b.store).outcome = .ok cs ∧
      (Store.chunksOf d.id c.store).outcome = .ok cs' ∧ cs.map Chunk.piece = cs'.map Chunk.piece

/-- A base whose documents all have their chunks, made with one function of the texts. -/
structure Current (s : Service) (f : String → Embedding) (b : Base) : Prop where
  ready : Ready s.indexer b
  named : Catalog.Named b
  provider : b.provider = Indexer.fixedProvider f
  whole : ∀ x ∈ b.store.sources, Remade s.indexer.budget b.provider x (b.store.piecesOf x.id)

theorem Current.asRebuilt {s : Service} {f : String → Embedding} {b : Base} (h : Current s f b) : s.AsRebuilt b := by
  obtain ⟨p, updates, c, hrun, hp⟩ := Indexer.rebuild_answered h.ready
  have hs := h.ready.sound
  have hk := (Indexer.keeps_rebuild s.indexer).of_run hrun hs
  refine ⟨p, updates, c, hrun, hp, fun d hd => ?_⟩
  obtain ⟨cs, hcs, hpieces⟩ := Store.chunksOf_outcome hs d.id
  obtain ⟨cs', hcs', hpieces'⟩ := Store.chunksOf_outcome hk.sound d.id
  refine ⟨cs, cs', hcs, hcs', ?_⟩
  rw [hpieces, hpieces']
  have hold := h.whole _ (hd.mem hs)
  have hnew := Indexer.rebuild_remade hrun hp hs _ (hd.mem hs)
  rw [h.provider] at hold hnew
  exact hold.unique hnew

structure Edit where
  clock : Nat
  files : Tree

def edited (b : Base) (e : Edit) : Base := { b with clock := e.clock, files := e.files }

/-- Editing files makes no chunk stale, for documents change by scans alone. -/
theorem Current.edited {s : Service} {f : String → Embedding} {b : Base} (h : Current s f b) (e : Edit) :
    Current s f (edited b e) :=
  ⟨⟨h.ready.sound, h.ready.numbered, h.ready.answers, h.ready.admits, h.ready.room⟩, h.named, h.provider,
    h.whole⟩

/-- Files in good order, with texts whose segments can all be numbered in a store. -/
structure Fits (s : Service) (store : Store) (t : Tree) : Prop where
  sound : t.Sound
  room : ∀ place text, t.Says place text → store.HasRoom (Segment.segmentText s.indexer.budget text).length

theorem Fits.grown {s : Service} {store : Store} {t t' : Tree} (h : s.Fits store t) (hg : t.Grown t') :
    s.Fits store t' where
  sound := hg.sound
  room place text := fun ⟨c, raw, hn, hr⟩ => h.room place text ⟨c, raw, hg.files place c hn, hr⟩

def inputsOf (s : Service) (store : Store) (id : String) : List String :=
  match (Store.document id store).outcome with
  | .ok d => (Segment.segmentText s.indexer.budget d.content).map (Embedding.chunkInput d.category d.title)
  | .error _ => []

theorem inputsOf_id (s : Service) {store : Store} (hs : store.Sound) {x : Source} (hx : x ∈ store.sources) :
    s.inputsOf store x.id = (Segment.segmentText s.indexer.budget x.content).map x.input := by
  obtain ⟨d, hd, rfl⟩ := Store.document_of_mem hs hx
  rw [inputsOf, hd]
  rfl

/-- A sweep asks for the texts of its documents. -/
theorem asked_of_swept {s : Service} {ids : List String} {c b' : Base} (h : Swept s.indexer ids c b')
    (hc : c.store.Sound) : b'.asked = c.asked ++ ids.flatMap (s.inputsOf c.store) := by
  obtain ⟨xs, rfl, hxs, ha⟩ := h.asked hc
  rw [ha, List.flatMap_map]
  congr 1
  exact List.flatMap_congr fun x hx => (inputsOf_id s hc (hxs x hx)).symm

/-- After a scan every document can be reindexed. -/
theorem Current.scanned {s : Service} {f : String → Embedding} {b c : Base} {t : Tree} {changed : List String}
    (h : Current s f b) (hfits : s.Fits b.store t)
    (hscan : Catalog.Scanned s.root (Catalog.filesIn s.root t) { b with files := t } changed c) :
    Ready s.indexer c where
  sound := hscan.sound
  numbered i hi := by
    obtain ⟨n, hle, rfl⟩ := h.ready.numbered i (hscan.ids ▸ hi)
    exact ⟨n, Nat.le_trans hle hscan.issued, rfl⟩
  answers := hscan.provider ▸ h.ready.answers
  admits := hscan.refusals ▸ h.ready.admits
  room x hx := by
    by_cases hi : x.id ∈ changed
    · obtain ⟨names, -, hfile⟩ := hscan.fromFile x hx hi
      exact hscan.room _ (hfits.room _ _ (Tree.read_says hfile.content))
    · exact hscan.room _ (h.ready.room x (hscan.unreported x hx hi))

/-- After a scan and a bootstrap that went through, every document has its chunks again. -/
theorem Current.course {s : Service} {f : String → Embedding} {b c b' : Base} {t : Tree} {changed : List String}
    {p : Progress} (h : Current s f b) (hfits : s.Fits b.store t)
    (hscan : Catalog.Scanned s.root (Catalog.filesIn s.root t) { b with files := t } changed c)
    (hcourse : Course s changed c p b') (hp : p.Clean) :
    Current s f b' ∧ b'.store.sources = c.store.sources ∧ (∀ n, c.store.HasRoom n → b'.store.HasRoom n) ∧
      ∀ n, (Store.chunkCount c.store).outcome = .ok n → 0 < n →
        b'.asked = c.asked ++ changed.flatMap (s.inputsOf c.store) := by
  have hc := h.scanned hfits hscan
  have hnamed : Catalog.Named c := hscan.named h.named
  have hprovider : c.provider = Indexer.fixedProvider f := hscan.provider.trans h.provider
  -- what a document that was not reported brings along
  have hold : ∀ x ∈ c.store.sources, x.id ∉ changed →
      Remade s.indexer.budget c.provider x (c.store.piecesOf x.id) := by
    intro x hx hi
    rw [hscan.provider, hscan.pieces x.id]
    exact h.whole x (hscan.unreported x hx hi)
  have hcurrent : ∀ {ids : Set String}, Indexer.Kept ids c b' →
      (∀ x ∈ c.store.sources, Remade s.indexer.budget c.provider x (b'.store.piecesOf x.id)) →
        Current s f b' := by
    intro ids hk hw
    refine ⟨hc.kept hk, fun x hx => ?_, hk.provider.trans hprovider, fun x hx => ?_⟩
    · obtain ⟨n, hle, he⟩ := hnamed x (hk.sources ▸ hx)
      exact ⟨n, Nat.le_trans hle hk.issued, he⟩
    · rw [hk.provider]
      exact hw x (hk.sources ▸ hx)
  cases hcourse with
  | built empty es updates work =>
    have hk := (Indexer.keeps_rebuild s.indexer).of_run work hc.sound
    have hk' := (Indexer.kept_noting hc.sound es).trans hk
    have hwhole := Indexer.rebuild_remade (b := c.noting es) work hp hc.sound
    refine ⟨hcurrent hk' hwhole, hk'.sources, hk'.room, fun n hn h0 => ?_⟩
    cases empty.symm.trans hn
    exact absurd h0 (Nat.lt_irrefl 0)
  | idle count some_ es nothing end_ =>
    subst nothing end_
    have hk := Indexer.kept_noting hc.sound es
    exact ⟨hcurrent hk fun x hx => hold x hx List.not_mem_nil, hk.sources, hk.room,
      fun _ _ _ => (List.append_nil _).symm⟩
  | updated count some_ es work =>
    have hswept := Indexer.reindexMany_swept work hp
    have hk' := (Indexer.kept_noting hc.sound es).trans ((hswept.kept hc.sound).mono fun _ _ => trivial)
    refine ⟨hcurrent hk' fun x hx => ?_, hk'.sources, hk'.room,
      fun _ _ _ => asked_of_swept (c := c.noting es) hswept hc.sound⟩
    by_cases hi : x.id ∈ changed
    · exact hswept.remade hc.sound x hx hi
    · rw [(hswept.kept hc.sound).others x.id hi]
      exact hold x hx hi

def round (s : Service) (b : Base) (e : Edit) : Base := (runOn s.bootstrap (edited b e)).2

/-- What a round comes to: it ends where it began because the root cannot be made; or nothing fails in it, the documents
are those that its scan leaves, and if there was an index, it asks for the texts of those that the scan reports, each
once. -/
def RoundEnds (s : Service) (b : Base) (e : Edit) : Prop :=
  (∃ fault, e.files.makeDirectories s.root = .error fault ∧
      runOn s.bootstrap (edited b e) = (.error fault, edited b e)) ∨
    ∃ changed c n p, runOn (Catalog.scan s.root) (edited b e) = (.ok changed, c) ∧
      (Store.chunkCount c.store).outcome = .ok n ∧
      runOn s.bootstrap (edited b e) = (.ok p, s.round b e) ∧ p.Clean ∧ changed.Nodup ∧
      (s.round b e).store.sources = c.store.sources ∧
      (0 < n → (s.round b e).asked = b.asked ++ changed.flatMap (s.inputsOf c.store))

/-- A round leaves every document with the chunks of its text. -/
theorem Current.round {s : Service} {f : String → Embedding} {b : Base} (h : Current s f b) (hroot : s.root.Normal)
    {e : Edit} (hfits : s.Fits b.store e.files) :
    s.RoundEnds b e ∧ Current s f (s.round b e) ∧ ∀ n, b.store.HasRoom n → (s.round b e).store.HasRoom n := by
  have he := h.edited e
  cases ht : e.files.makeDirectories s.root with
  | error fault =>
    have hrun : runOn s.bootstrap (Service.edited b e) = (.error fault, Service.edited b e) := by
      refine Action.runOn_bind_error.2 (.inl (Action.runOn_bind_error.2 (.inl ?_)))
      rw [Action.runOn_writeFiles, Service.edited, ht]
    have hround : s.round b e = Service.edited b e := by rw [Service.round, hrun]
    exact ⟨.inl ⟨fault, ht, hrun⟩, hround ▸ he, fun _ hn => hround ▸ hn⟩
  | ok t =>
    obtain ⟨hgrown, hu⟩ := Tree.makeDirectories_grown hfits.sound hroot ht
    obtain ⟨changed, c, hscan⟩ := Catalog.scan_total (b := Service.edited b e) he.ready.sound ht fun names hn =>
      (Catalog.filesIn_usable hu hgrown.sound names hn).notNul
    obtain ⟨t', ht', hscanned, hnodup⟩ := Catalog.scan_ok he.ready.sound hscan
    cases ht.symm.trans ht'
    have hfits' : s.Fits (Service.edited b e).store t := hfits.grown hgrown
    have hready := he.scanned hfits' hscanned
    obtain ⟨p, b', hrun, hp⟩ := bootstrap_answered hscan hready hscanned.reported
    have hround : s.round b e = b' := by rw [Service.round, hrun]
    obtain ⟨changed', c', hscan', hcourse⟩ := bootstrap_ok he.ready.sound hrun
    cases hscan.symm.trans hscan'
    obtain ⟨hcurrent, hsources, hroom, hasked⟩ := he.course hfits' hscanned hcourse hp
    obtain ⟨n, hn⟩ := Store.chunkCount_outcome hready.sound
    have hquiet : c.asked = (Service.edited b e).asked := (Catalog.leads_scan Catalog.admits_asked s.root).of_run hscan
    refine ⟨.inr ⟨changed, c, n, p, hscan, hn, by rw [hround, hrun], hp, ?_, hround ▸ hsources, fun h0 => ?_⟩,
      hround ▸ hcurrent, ?_⟩
    · exact hnodup he.named (Catalog.filesIn_apart hu hgrown.sound)
    · rw [hround, hasked n hn h0, hquiet]
      rfl
    · exact fun m hm => hround ▸ hroom m (hscanned.room m hm)

/-- What a run of rounds starts from: an empty store, vectors that are made from the texts alone, and no refusals. -/
structure Starts (f : String → Embedding) (start : Base) : Prop where
  store : start.store.New
  provider : start.provider = Indexer.fixedProvider f
  admits : Indexer.Admits start.refusals

/-- An empty store has nothing that could be stale. -/
theorem Starts.current {f : String → Embedding} {start : Base} (h : Starts f start) (s : Service) :
    Current s f start := by
  obtain ⟨hsources, hids⟩ := h.store.holds_nothing
  have hnone : ∀ x, x ∉ start.store.sources := fun x hx => by rw [hsources] at hx; cases hx
  have hready : Ready s.indexer start :=
    { sound := h.store.sound
      numbered := fun i hi => by rw [hids] at hi; cases hi
      answers := fun past text => ⟨f text, by rw [h.provider]; rfl⟩
      admits := h.admits
      room := fun x hx => absurd hx (hnone x) }
  exact ⟨hready, fun x hx => absurd hx (hnone x), h.provider, fun x hx => absurd hx (hnone x)⟩

def rounds (s : Service) (start : Base) (edits : List Edit) : Base := edits.foldl s.round start

/-- After rounds in a row every document has the chunks of its text. -/
theorem Current.rounds {s : Service} {f : String → Embedding} (hroot : s.root.Normal) {edits : List Edit} :
    ∀ {b : Base}, Current s f b → (∀ e ∈ edits, s.Fits b.store e.files) →
      Current s f (s.rounds b edits) ∧ ∀ n, b.store.HasRoom n → (s.rounds b edits).store.HasRoom n := by
  induction edits with
  | nil => exact fun h _ => ⟨h, fun _ hn => hn⟩
  | cons e rest ih =>
    intro b h hfits
    rw [List.forall_mem_cons] at hfits
    obtain ⟨-, hround, hroom⟩ := h.round hroot hfits.1
    obtain ⟨hrest, hroom'⟩ := ih hround fun e' he' => ⟨(hfits.2 e' he').sound, fun place text ht =>
      hroom _ ((hfits.2 e' he').room place text ht)⟩
    exact ⟨hrest, fun n hn => hroom' n (hroom n hn)⟩

/-- However the files are edited between bootstraps that do not fail: after each of them the documents are those that
its scan left, every one has the chunks that building the index anew would give it, and a bootstrap that finds an
index asks for the segments of the documents that its scan reports, each once, and for nothing else. -/
theorem incremental_eq_rebuild (s : Service) (hroot : s.root.Normal) (f : String → Embedding) (start : Base)
    (hstart : Starts f start) (edits : List Edit) (last : Edit)
    (hfits : ∀ e ∈ last :: edits, s.Fits start.store e.files) :
    s.RoundEnds (s.rounds start edits) last ∧ s.AsRebuilt (s.round (s.rounds start edits) last) := by
  rw [List.forall_mem_cons] at hfits
  obtain ⟨hcurrent, hroom⟩ := (hstart.current s).rounds hroot hfits.2
  obtain ⟨hends, hlast, -⟩ := hcurrent.round hroot (e := last)
    ⟨hfits.1.sound, fun place text ht => hroom _ (hfits.1.room place text ht)⟩
  exact ⟨hends, hlast.asRebuilt⟩

theorem small_fits (content : String) : small.Fits .empty (around content).files where
  sound :=
    { keys := by
        change [["kb"], ["kb", "a.md"]].Nodup
        decide +kernel
      reachable := by
        rintro e (_ | ⟨_, _ | ⟨_, ⟨⟩⟩⟩)
        · exact ⟨⟨["kb"], .inl rfl, by decide +kernel⟩, by simp [Tree.IsRoot, Tree.top]⟩
        · exact ⟨⟨["kb", "a.md"], .inl rfl, by decide +kernel⟩, by simp [Tree.IsRoot, Tree.top]⟩
      parents := by
        rintro e (_ | ⟨_, _ | ⟨_, ⟨⟩⟩⟩)
        · rfl
        · rfl }
  room _ _ _ := trivial

def spelled (text : String) : Embedding := text.toList.map fun c => ⟨c.val⟩

/-- A file that is rewritten between two rounds: its vector spells the new text in the end. -/
theorem incremental_eq_rebuild_small :
    let start : Base := { provider := Indexer.fixedProvider spelled }
    let edits : List Edit := [⟨0, (around "x").files⟩]
    let last : Edit := ⟨1, (around "y").files⟩
    let end_ := small.round (small.rounds start edits) last
    small.RoundEnds (small.rounds start edits) last ∧ small.AsRebuilt end_ ∧
      ∃ cs, (Store.chunksOf "id-0001" end_.store).outcome = .ok cs ∧
        cs.map (fun c => (c.index, c.text, c.vector)) =
          [(0, "y", some (spelled "[category: uncategorized] [title: a]\ny"))] := by
  intro start edits last end_
  have hstart : Starts spelled start := ⟨.memory, rfl, fun _ => ⟨rfl, rfl⟩⟩
  have hfits : ∀ e ∈ last :: edits, small.Fits start.store e.files := by
    rw [List.forall_mem_cons, List.forall_mem_singleton]
    exact ⟨small_fits "y", small_fits "x"⟩
  obtain ⟨hends, hrebuilt⟩ :=
    incremental_eq_rebuild small ⟨by decide, by decide +kernel⟩ spelled start hstart edits last hfits
  exact ⟨hends, hrebuilt, exists_of_toOption (by decide +kernel)⟩

end Service

end Compendium
