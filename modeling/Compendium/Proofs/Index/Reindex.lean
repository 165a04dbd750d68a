import Compendium.Index.Reindex
import Compendium.Proofs.Runs
import Compendium.Proofs.Store.Holdings

/-!
What reindexing one document does. The chunks that are made are the segments
whose embedding came, in their order and numbered without gaps; the store is
touched once, at the end, and not at all when anything fails before.
-/
namespace Compendium

def Source.input (x : Source) (segment : String) : String := Embedding.chunkInput x.category x.title segment

namespace Indexer

open Number (Numeral)
open Compendium.Action (runOn runOn_bind runOn_bind_ok runOn_bind_error Leads Frame)

/-- What an answer of the provider comes to, when some time is left for the whole work. -/
inductive Embedded (limit : Option Numeral) (left : Option Float) :
    Outcome → Except Fault (Except Fault Embedding × Option Float) → Prop where
  | made (v : Embedding) : Embedded limit left (.vector v) (.ok (.ok v, left))
  | failed (e : Fault) : Embedded limit left (.fails e) (.ok (.error e, left))
  | late {left' : Option Float} (h : left'.isSome = left.isSome) :
      Embedded limit left .hangs (.ok (.error .timeout, left'))
  | stopped (h : limit = none ∨ left.isSome = true) : Embedded limit left .hangs (.error .cancelled)

theorem runOn_embed_cases (limit : Option Numeral) (left : Option Float) (text : String) (b : Base) :
    ∃ r, runOn (embed limit left text) b = (r, { b with asked := b.asked ++ [text] }) ∧
      Embedded limit left (b.provider b.asked text) r := by
  simp only [embed, runOn_bind, Action.runOn_ask]
  cases b.provider b.asked text with
  | vector v => exact ⟨_, rfl, .made v⟩
  | fails e => exact ⟨_, rfl, .failed e⟩
  | hangs =>
    cases limit with
    | none => exact ⟨_, rfl, .stopped (.inl rfl)⟩
    | some t =>
      cases left with
      | none => exact ⟨_, rfl, .late rfl⟩
      | some r =>
        dsimp only
        split
        · exact ⟨_, rfl, .stopped (.inr rfl)⟩
        · exact ⟨_, rfl, .late rfl⟩

/-- An answer of the provider that ends a reindexing: a failure that is not passed over, or none at all where nothing
limits the single embedding, or the work as a whole is limited as well. -/
inductive Ends (ix : Indexer) (left : Option Float) : Outcome → Fault → Prop where
  | failed {e : Fault} (h : isPassing e = false) : Ends ix left (.fails e) e
  | stopped (h : ix.embedLimit = none ∨ left.isSome = true) : Ends ix left .hangs .cancelled

/-- What becomes of the next segment: it makes a chunk, or is passed over, and the others follow; or it ends the work.
-/
inductive Turn (ix : Indexer) (d : Document) (left : Option Float) (position : Nat) (made : List Chunk) (failed : Nat)
    (s : String) (rest : List String) (b : Base) : Prop where
  | kept (v : Embedding) (answer : b.provider b.asked (d.source.input s) = .vector v)
      (run : runOn (embedAll ix d left position made failed (s :: rest)) b =
        runOn (embedAll ix d left (position + 1)
          (made ++ [⟨Action.idText (b.issued + 1), d.id, made.length, s, some v, some (Time.ofUnixMicros b.clock)⟩])
          failed rest) { b with asked := b.asked ++ [d.source.input s], issued := b.issued + 1 })
  | passed (left' : Option Float) (es : List Entry) (limited : left'.isSome = left.isSome)
      (answer : ∀ v, b.provider b.asked (d.source.input s) ≠ .vector v)
      (run : runOn (embedAll ix d left position made failed (s :: rest)) b =
        runOn (embedAll ix d left' (position + 1) made (failed + 1) rest)
          (Base.noting { b with asked := b.asked ++ [d.source.input s] } es))
  | ended (e : Fault) (answer : Ends ix left (b.provider b.asked (d.source.input s)) e)
      (run : runOn (embedAll ix d left position made failed (s :: rest)) b =
        (.error e, { b with asked := b.asked ++ [d.source.input s] }))

/-- One turn of the loop over the segments. -/
theorem embedAll_turn (ix : Indexer) (d : Document) (left : Option Float) (position : Nat) (made : List Chunk)
    (failed : Nat) (s : String) (rest : List String) (b : Base) :
    Turn ix d left position made failed s rest b := by
  obtain ⟨r, hr, hcases⟩ := runOn_embed_cases ix.embedLimit left (d.source.input s) b
  replace hr : runOn (embed ix.embedLimit left (Embedding.chunkInput d.category d.title s)) b = _ := hr
  generalize ho : b.provider b.asked (d.source.input s) = o at hcases
  cases hcases with
  | made v =>
    apply Turn.kept v ho
    rw [embedAll, runOn_bind, hr]
    simp only [runOn_bind, Action.runOn_newId, Action.runOn_now]
  | failed e =>
    cases hp : isPassing e with
    | true =>
      apply Turn.passed left _ rfl (by simp [ho])
      rw [embedAll, runOn_bind, hr]
      simp only [hp, Bool.not_true, Bool.false_eq_true, if_false, runOn_bind, Action.runOn_log]
      rfl
    | false =>
      apply Turn.ended e (by rw [ho]; exact .failed hp)
      rw [embedAll, runOn_bind, hr]
      simp only [hp, Bool.not_false, if_true, runOn_bind, Action.runOn_throw]
  | @late left' hl =>
    have hp : isPassing .timeout = true := rfl
    apply Turn.passed left' _ hl (by simp [ho])
    rw [embedAll, runOn_bind, hr]
    simp only [hp, Bool.not_true, Bool.false_eq_true, if_false, runOn_bind, Action.runOn_log]
    rfl
  | stopped hl =>
    apply Turn.ended .cancelled (by rw [ho]; exact .stopped hl)
    rw [embedAll, runOn_bind, hr]

/-- Chunks made of some of the segments of a document, numbered from `first` on and with the ids that follow
number `issued`. -/
structure MadeFrom (d : Document) (provider : Provider) (first issued : Nat) (segments : List String)
    (chunks : List Chunk) : Prop where
  texts : (chunks.map Chunk.text).Sublist segments
  indexes : chunks.map Chunk.index = (List.range' first chunks.length).map Int.ofNat
  ids : chunks.map Chunk.id = (List.range' (issued + 1) chunks.length).map Action.idText
  document : ∀ c ∈ chunks, c.document = d.id
  vector : ∀ c ∈ chunks, ∃ past v, provider past (d.source.input c.text) = .vector v ∧ c.vector = some v

/-- Bases that differ in what was asked, given out and logged alone. -/
structure Untouched (b b' : Base) : Prop extends Base.Steady b b' where
  store : b'.store = b.store

theorem frame_untouched : Frame Untouched where
  refl b := ⟨Base.Steady.refl b, rfl⟩
  trans h h' := ⟨h.toSteady.trans h'.toSteady, h'.store.trans h.store⟩
  noting b es := ⟨Base.steady_noting b es, rfl⟩

theorem leads_embed (limit : Option Numeral) (left : Option Float) (text : String) :
    Leads Untouched (embed limit left text) := fun b => by
  obtain ⟨r, hr, -⟩ := runOn_embed_cases limit left text b
  rw [hr]
  exact ⟨⟨rfl, rfl, rfl, rfl, Nat.le_refl _⟩, rfl⟩

theorem leads_newId : Leads Untouched Action.newId := fun b => ⟨⟨rfl, rfl, rfl, rfl, Nat.le_succ b.issued⟩, rfl⟩

theorem leads_embedAll (ix : Indexer) (d : Document) (segments : List String) :
    ∀ (left : Option Float) (position : Nat) (made : List Chunk) (failed : Nat),
      Leads Untouched (embedAll ix d left position made failed segments) := by
  induction segments with
  | nil => exact fun _ _ made failed => Action.leads_pure frame_untouched (made, failed)
  | cons s rest ih =>
    intro left position made failed
    refine Action.leads_bind frame_untouched (leads_embed _ _ _) fun r => ?_
    obtain ⟨result, left'⟩ := r
    cases result with
    | ok v =>
      exact Action.leads_bind frame_untouched leads_newId fun i =>
        Action.leads_bind frame_untouched (Action.leads_now frame_untouched) fun t => ih _ _ _ _
    | error e =>
      dsimp only
      split
      · exact Action.leads_bind frame_untouched (Action.leads_throw frame_untouched e) fun _ =>
          Action.leads_bind frame_untouched (Action.leads_log frame_untouched _ _ _ _ _) fun _ => ih _ _ _ _
      · exact Action.leads_bind frame_untouched (Action.leads_log frame_untouched _ _ _ _ _) fun _ => ih _ _ _ _

theorem MadeFrom.nil (d : Document) (provider : Provider) (first issued : Nat) :
    MadeFrom d provider first issued [] [] :=
  ⟨.slnil, rfl, rfl, nofun, nofun⟩

/-- A segment whose embedding failed is passed over. -/
theorem MadeFrom.skip {d : Document} {provider : Provider} {first issued : Nat} {segments : List String}
    {chunks : List Chunk} (h : MadeFrom d provider first issued segments chunks) (s : String) :
    MadeFrom d provider first issued (s :: segments) chunks :=
  { h with texts := h.texts.cons s }

theorem MadeFrom.cons {d : Document} {provider : Provider} {first issued : Nat} {segments : List String}
    {chunks : List Chunk} (h : MadeFrom d provider (first + 1) (issued + 1) segments chunks) {s : String}
    {v : Embedding} {past : List String} (hv : provider past (d.source.input s) = .vector v) (created : Option Time) :
    MadeFrom d provider first issued (s :: segments)
      (⟨Action.idText (issued + 1), d.id, first, s, some v, created⟩ :: chunks) where
  texts := h.texts.cons_cons s
  indexes := by simpa [List.range'_succ] using h.indexes
  ids := by simpa [List.range'_succ] using h.ids
  document := by
    rintro c (_ | ⟨_, hc⟩)
    · rfl
    · exact h.document c hc
  vector := by
    rintro c (_ | ⟨_, hc⟩)
    · exact ⟨past, v, hv, rfl⟩
    · exact h.vector c hc

/-- When the embedding of a document goes through, every segment was asked for once and either made a chunk or
was counted as failed. -/
theorem embedAll_ok {ix : Indexer} {d : Document} {segments : List String} :
    ∀ {left : Option Float} {position : Nat} {made : List Chunk} {failed : Nat} {chunks : List Chunk} {failed' : Nat}
      {b b' : Base}, runOn (embedAll ix d left position made failed segments) b = (.ok (chunks, failed'), b') →
      ∃ new, chunks = made ++ new ∧ MadeFrom d b.provider made.length b.issued segments new ∧
        failed' + new.length = failed + segments.length ∧ b'.issued = b.issued + new.length ∧
        b'.asked = b.asked ++ segments.map d.source.input := by
  induction segments with
  | nil =>
    intro left position made failed chunks failed' b b' h
    cases h
    exact ⟨[], by simp, MadeFrom.nil _ _ _ _, by simp, by simp, by simp⟩
  | cons s rest ih =>
    intro left position made failed chunks failed' b b' h
    cases embedAll_turn ix d left position made failed s rest b with
    | kept v hv hrun =>
      obtain ⟨new, rfl, hm, hf, hi, ha⟩ := ih (hrun.symm.trans h)
      rw [List.length_append, List.length_singleton] at hm
      refine ⟨_ :: new, by rw [List.append_assoc, List.singleton_append], hm.cons hv _, ?_, ?_, ?_⟩
      · simp only [List.length_cons]
        omega
      · simp only [List.length_cons, hi]
        omega
      · simp [ha]
    | passed left' es _ _ hrun =>
      obtain ⟨new, rfl, hm, hf, hi, ha⟩ := ih (hrun.symm.trans h)
      refine ⟨new, rfl, hm.skip s, ?_, hi, ?_⟩
      · simp only [List.length_cons]
        omega
      · simp [ha]
    | ended e _ hrun => cases hrun.symm.trans h

theorem runOn_segmentsOf (ix : Indexer) (d : Document) (b : Base) :
    ∃ es, runOn (ix.segmentsOf d) b = (.ok (Segment.segmentText ix.budget d.content), b.noting es) := by
  simp only [segmentsOf]
  split
  · exact ⟨_, rfl⟩
  · exact ⟨[], by simp [Base.noting]⟩

theorem runOn_report (d : Document) (r : Reindexed) (b : Base) :
    ∃ es, runOn (report d r) b = (.ok (), b.noting es) := by
  simp only [report]
  split
  · exact ⟨_, rfl⟩
  · exact ⟨_, rfl⟩

structure Done (ix : Indexer) (d : Document) (b : Base) (r : Reindexed) (b' : Base) :
    Prop extends Base.Steady b b' where
  made : MadeFrom d b.provider 0 b.issued (Segment.segmentText ix.budget d.content) r.chunks
  count : r.failed + r.chunks.length = (Segment.segmentText ix.budget d.content).length
  replaced : ∃ now, Store.replace now r.document r.chunks b.store = .ok b'.store
  given : b'.issued = b.issued + r.chunks.length
  asked : b'.asked = b.asked ++ (Segment.segmentText ix.budget d.content).map d.source.input

/-- Chunks are taken all together, or refused without a change. -/
theorem runOn_replaceChunks (id : String) (cs : List Chunk) (b : Base) :
    (∃ e, runOn (Action.replaceChunks id cs) b = (.error e, b)) ∨
      ∃ now s, Store.replace now id cs b.store = .ok s ∧
        runOn (Action.replaceChunks id cs) b = (.ok (), { b with store := s }) := by
  simp only [Action.replaceChunks, runOn_bind, Action.runOn_refuseIf, Action.runOn_now, Action.runOn_writeStore]
  by_cases hr : b.refusals.replacing id
  · exact .inl ⟨.store .diskFull, by simp [hr]⟩
  · cases hs : Store.replace (Time.ofUnixMicros b.clock) id cs b.store with
    | ok s => exact .inr ⟨_, s, hs, by simp [hr, hs]⟩
    | error e => exact .inl ⟨e, by simp [hr, hs]⟩

/-- The steps of a remake that went through: the document was read, its segments were embedded up to the base `c`, and
the chunks were taken. -/
structure Remaking (ix : Indexer) (left : Option Float) (id : String) (b : Base) (d : Document) (c : Base)
    (r : Reindexed) (b' : Base) : Prop where
  read : (Store.document id b.store).outcome = .ok d
  embedded : ∃ es, runOn (embedAll ix d left 0 [] 0 (Segment.segmentText ix.budget d.content)) (b.noting es) =
    (.ok (r.chunks, r.failed), c)
  taken : ∃ now s m es, Store.replace now id r.chunks b.store = .ok s ∧
    b' = Base.noting { c with store := s, meter := m } es
  document : r.document = id
  segments : r.segments = (Segment.segmentText ix.budget d.content).length

theorem remake_cases {ix : Indexer} {left : Option Float} {id : String} {b b' : Base}
    {outcome : Except Fault Reindexed} (h : runOn (ix.remake left id) b = (outcome, b')) :
    (∃ e, outcome = .error e ∧ Untouched b b') ∨ ∃ r d c, outcome = .ok r ∧
      Remaking ix left id b d c r b' := by
  rw [remake, runOn_bind] at h
  rcases Action.runOn_document id b with hd | ⟨-, es, hd⟩
  · rw [hd] at h
    cases h
    exact .inl ⟨_, rfl, frame_untouched.refl _⟩
  rw [hd] at h
  cases hread : (Store.document id b.store).outcome with
  | error e =>
    rw [hread] at h
    cases h
    exact .inl ⟨e, rfl, frame_untouched.noting _ _⟩
  | ok d =>
    obtain ⟨es', hs⟩ := runOn_segmentsOf ix d (b.noting es)
    rw [hread] at h
    dsimp only at h
    rw [runOn_bind, hs, Base.noting_noting] at h
    dsimp only at h
    rw [runOn_bind] at h
    rcases he : runOn (embedAll ix d left 0 [] 0 (Segment.segmentText ix.budget d.content)) (b.noting (es ++ es')) with
      ⟨embedded, c⟩
    have hu : Untouched b c :=
      frame_untouched.trans (frame_untouched.noting _ _) ((leads_embedAll ix d _ left 0 [] 0).of_run he)
    rw [he] at h
    cases embedded with
    | error e =>
      cases h
      exact .inl ⟨e, rfl, hu⟩
    | ok made =>
      obtain ⟨chunks, failed⟩ := made
      dsimp only at h
      rw [runOn_bind] at h
      rcases runOn_replaceChunks id chunks c with ⟨e, hr⟩ | ⟨now, s, hs', hr⟩
      · rw [hr] at h
        cases h
        exact .inl ⟨e, rfl, hu⟩
      · obtain ⟨es'', hrep⟩ := runOn_report d
          ⟨id, (Segment.segmentText ix.budget d.content).length, chunks, failed⟩
          { c with store := s, meter := Meter.indexed chunks.length failed c.meter }
        rw [hr] at h
        simp only [runOn_bind, Action.runOn_measure, hrep, Action.runOn_pure] at h
        cases h
        exact .inr ⟨_, d, c, rfl, hread, ⟨_, he⟩, ⟨now, s, _, es'', by rw [← hu.store]; exact hs', rfl⟩,
          rfl, rfl⟩

theorem Remaking.done {ix : Indexer} {left : Option Float} {id : String} {b b' c : Base} {d : Document} {r : Reindexed}
    (h : Remaking ix left id b d c r b') : Done ix d b r b' := by
  obtain ⟨es, he⟩ := h.embedded
  obtain ⟨now, s, m, es', hs, rfl⟩ := h.taken
  obtain ⟨new, hnew, hm, hf, hi, ha⟩ := embedAll_ok he
  rw [List.nil_append] at hnew
  have hu : Untouched (b.noting es) c := (leads_embedAll ix d _ left 0 [] 0).of_run he
  have hsteady : Base.Steady b c := (Base.steady_noting b es).trans hu.toSteady
  refine ⟨hsteady.trans ⟨rfl, rfl, rfl, rfl, Nat.le_refl _⟩, hnew ▸ hm, ?_, ⟨now, ?_⟩, hnew ▸ hi, ha⟩
  · rw [hnew, hf, Nat.zero_add]
  · rw [h.document]
    exact hs

theorem runOn_remake {ix : Indexer} {left : Option Float} {id : String} {b b' : Base}
    {outcome : Except Fault Reindexed} (h : runOn (ix.remake left id) b = (outcome, b')) :
    (∃ e, outcome = .error e ∧ Untouched b b') ∨
      ∃ r d, outcome = .ok r ∧ r.document = id ∧ (Store.document id b.store).outcome = .ok d ∧
        Done ix d b r b' := by
  rcases remake_cases h with herror | ⟨r, d, c, hok, hr⟩
  · exact .inl herror
  · exact .inr ⟨r, d, hok, hr.document, hr.read, hr.done⟩

/-- A reindexing goes through when the document is read, the embedding of its segments goes through, and the chunks
are taken. -/
theorem reindex_of_embedAll {ix : Indexer} {id : String} {b : Base} {d : Document}
    (hreading : b.refusals.reading id = false) (hread : (Store.document id b.store).outcome = .ok d)
    (hreplacing : b.refusals.replacing id = false)
    (hembed : ∀ es, ∃ chunks failed c s,
      runOn (embedAll ix d none 0 [] 0 (Segment.segmentText ix.budget d.content)) (b.noting es) =
        (.ok (chunks, failed), c) ∧ Store.replace (Time.ofUnixMicros b.clock) id chunks b.store = .ok s) :
    ∃ r b' es c, runOn (ix.reindex id) b = (.ok r, b') ∧
      runOn (embedAll ix d none 0 [] 0 (Segment.segmentText ix.budget d.content)) (b.noting es) =
        (.ok (r.chunks, r.failed), c) := by
  obtain ⟨es, hdocument⟩ := Action.runOn_document_admitted hreading
  obtain ⟨es', hcut⟩ := runOn_segmentsOf ix d (b.noting es)
  rw [Base.noting_noting] at hcut
  obtain ⟨chunks, failed, c, s, he, hs⟩ := hembed (es ++ es')
  have hu : Untouched (b.noting (es ++ es')) c := (leads_embedAll ix d _ none 0 [] 0).of_run he
  have hreplace : runOn (Action.replaceChunks id chunks) c = (.ok (), { c with store := s }) := by
    simp only [Action.replaceChunks, runOn_bind, Action.runOn_refuseIf, Action.runOn_now, Action.runOn_writeStore,
      hu.refusals, hu.clock, hu.store, Base.noting_refusals, Base.noting_clock, Base.noting_store, hreplacing, hs,
      Bool.false_eq_true, if_false]
  obtain ⟨es'', hreport⟩ :=
    runOn_report d ⟨id, (Segment.segmentText ix.budget d.content).length, chunks, failed⟩
    { c with store := s, meter := Meter.indexed chunks.length failed c.meter }
  have hremake : runOn (ix.remake none id) b =
      (.ok ⟨id, (Segment.segmentText ix.budget d.content).length, chunks, failed⟩,
        { c with store := s, meter := Meter.indexed chunks.length failed c.meter }.noting es'') := by
    simp only [remake, runOn_bind, hdocument, hread, hcut, he, hreplace, Action.runOn_measure, hreport,
      Action.runOn_pure]
  obtain ⟨e, hprobe⟩ := Action.runOn_probed "indexer.reindex" [("document_id", .text id)] (ix.remake none id) b
  rw [hremake] at hprobe
  exact ⟨_, _, es ++ es', c, hprobe, he⟩

/-- Chunks that stand for a document as a whole: its segments in order and numbered from zero, each with a vector
that the provider made for it. -/
structure Remade (budget : Segment.Budget) (provider : Provider) (x : Source) (ps : List Piece) : Prop where
  texts : ps.map Piece.text = Segment.segmentText budget x.content
  indexes : ps.map Piece.index = (List.range' 0 ps.length).map Int.ofNat
  vectors : ∀ p ∈ ps, ∃ past v, provider past (x.input p.text) = .vector v ∧ p.vector = some v

/-- Chunks that are numbered in their order are sorted by it. -/
theorem byIndex_eq_self {chunks : List Chunk} {first : Nat}
    (h : chunks.map Chunk.index = (List.range' first chunks.length).map Int.ofNat) :
    Memory.byIndex chunks = chunks := by
  refine List.mergeSort_of_pairwise ?_
  have hp : (chunks.map Chunk.index).Pairwise (· ≤ ·) := by
    rw [h, List.pairwise_map]
    exact List.Pairwise.imp (fun hab => Int.ofNat_le.2 (Nat.le_of_lt hab)) List.pairwise_lt_range'
  exact (List.pairwise_map.1 hp).imp fun hab => decide_eq_true hab

/-- When no embedding failed, all segments are there. -/
theorem Done.remade {ix : Indexer} {d : Document} {b b' : Base} {r : Reindexed} (h : Done ix d b r b')
    (hs : b.store.Sound) (h0 : r.failed = 0) : Remade ix.budget b.provider d.source (b'.store.piecesOf r.document) := by
  obtain ⟨now, hr⟩ := h.replaced
  have hlen : r.chunks.length = (Segment.segmentText ix.budget d.content).length := by
    have := h.count
    omega
  have htexts : r.chunks.map Chunk.text = Segment.segmentText ix.budget d.content :=
    h.made.texts.eq_of_length (by rw [List.length_map, hlen])
  rw [(Store.replace_outcome hs hr).own, byIndex_eq_self h.made.indexes]
  refine ⟨?_, ?_, ?_⟩
  · rw [List.map_map]
    exact htexts
  · rw [List.map_map, List.length_map]
    exact h.made.indexes
  · intro p hp
    obtain ⟨c, hc, rfl⟩ := List.mem_map.1 hp
    exact h.made.vector c hc

/-- A reindexing fails and touches nothing, or it has replaced the chunks of its document. -/
theorem runOn_reindex {ix : Indexer} {id : String} {b b' : Base} {outcome : Except Fault Reindexed}
    (h : runOn (ix.reindex id) b = (outcome, b')) :
    (∃ e, outcome = .error e ∧ Untouched b b') ∨
      ∃ r d, outcome = .ok r ∧ r.document = id ∧ (Store.document id b.store).outcome = .ok d ∧
        Done ix d b r b' := by
  obtain ⟨e, he⟩ := Action.runOn_probed "indexer.reindex" [("document_id", .text id)] (ix.remake none id) b
  obtain ⟨rfl, rfl⟩ := Prod.mk.inj (he.symm.trans h)
  rcases runOn_remake (rfl : runOn (ix.remake none id) b = (_, _)) with ⟨f, hf, hu⟩ | ⟨r, d, hr, hi, hd, hdone⟩
  · exact .inl ⟨f, hf, frame_untouched.trans hu (frame_untouched.noting _ _)⟩
  · exact .inr ⟨r, d, hr, hi, hd, { hdone with toSteady := hdone.toSteady.trans (Base.steady_noting _ _) }⟩

/-! Reindexing that goes through. -/

def Answers (provider : Provider) : Prop := ∀ past text, ∃ v, provider past text = .vector v

/-- With a vector for each text no segment fails. -/
theorem embedAll_answered (ix : Indexer) (d : Document) (segments : List String) :
    ∀ (left : Option Float) (position : Nat) (made : List Chunk) (failed : Nat) (b : Base), Answers b.provider →
      ∃ chunks b', runOn (embedAll ix d left position made failed segments) b = (.ok (chunks, failed), b') := by
  induction segments with
  | nil => exact fun _ _ made _ b _ => ⟨made, b, rfl⟩
  | cons s rest ih =>
    intro left position made failed b hp
    obtain ⟨v, hv⟩ := hp b.asked (d.source.input s)
    cases embedAll_turn ix d left position made failed s rest b with
    | kept v' _ hrun =>
      rw [hrun]
      exact ih _ _ _ _ _ hp
    | passed left' es _ hnone => exact absurd hv (hnone v)
    | ended e hends =>
      rw [hv] at hends
      cases hends

def Numbered (b : Base) : Prop := ∀ i ∈ b.store.chunkIds, ∃ n ≤ b.issued, i = Action.idText n

def Admits (r : Refusals) : Prop := ∀ id, r.reading id = false ∧ r.replacing id = false

/-- Chunks made in a row differ in their ids. -/
theorem MadeFrom.nodup {d : Document} {provider : Provider} {first issued : Nat} {segments : List String}
    {chunks : List Chunk} (h : MadeFrom d provider first issued segments chunks) : (chunks.map Chunk.id).Nodup := by
  rw [h.ids]
  exact List.Nodup.map (fun m n he => Action.idText_inj he) (List.nodup_range' _)

/-- The chunks that were made can all be stored. -/
theorem MadeFrom.replaceable {d : Document} {provider : Provider} {issued : Nat} {segments : List String}
    {chunks : List Chunk} (h : MadeFrom d provider 0 issued segments chunks) {s : Store} (hs : s.Sound) (now : Time)
    {x : Source} (hx : x ∈ s.sources) (hroom : s.HasRoom segments.length)
    (hold : ∀ i ∈ s.chunkIds, ∃ n ≤ issued, i = Action.idText n) :
    ∃ s', Store.replace now x.id chunks s = .ok s' := by
  have hlen : chunks.length ≤ segments.length := by simpa using h.texts.length_le
  refine Store.replace_ok hs now hx hroom (fun c hc => ?_) (fun c hc => ?_) h.nodup fun c hc hi => ?_
  · obtain ⟨past, v, -, hv⟩ := h.vector c hc
    rw [hv]
    rfl
  · obtain ⟨n, hn, hi⟩ := List.mem_map.1 (h.indexes ▸ List.mem_map_of_mem (f := Chunk.index) hc)
    have := List.mem_range'_1.1 hn
    rw [← hi]
    constructor
    · exact Int.natCast_nonneg n
    · exact Int.ofNat_lt.2 (by omega)
  · obtain ⟨m, hm, he⟩ := hold c.id hi
    obtain ⟨n, hn, he'⟩ := List.mem_map.1 (h.ids ▸ List.mem_map_of_mem (f := Chunk.id) hc)
    have := Action.idText_inj (he'.trans he)
    have := List.mem_range'_1.1 hn
    omega

/-- When every text gets its vector and the store takes part, a stored document is reindexed and no segment fails. -/
theorem reindex_answered (ix : Indexer) {b : Base} (hs : b.store.Sound) (hn : Numbered b) (hp : Answers b.provider)
    (hr : Admits b.refusals) {x : Source} (hx : x ∈ b.store.sources)
    (hroom : b.store.HasRoom (Segment.segmentText ix.budget x.content).length) :
    ∃ r b', runOn (ix.reindex x.id) b = (.ok r, b') ∧ r.failed = 0 := by
  obtain ⟨d, hd, rfl⟩ := Store.document_of_mem hs hx
  have hembed : ∀ es, ∃ chunks c,
      runOn (embedAll ix d none 0 [] 0 (Segment.segmentText ix.budget d.content)) (b.noting es) =
        (.ok (chunks, 0), c) :=
    fun es => embedAll_answered ix d _ none 0 [] 0 (b.noting es) hp
  obtain ⟨r, b', es, c, hrun, he⟩ := reindex_of_embedAll (hr d.source.id).1 hd (hr d.source.id).2 fun es => by
    obtain ⟨chunks, c, he⟩ := hembed es
    obtain ⟨new, rfl, hm, -, -, -⟩ := embedAll_ok he
    obtain ⟨s, hs'⟩ := hm.replaceable hs (Time.ofUnixMicros b.clock) hx hroom hn
    exact ⟨_, 0, c, s, he, hs'⟩
  obtain ⟨chunks, c', he'⟩ := hembed es
  have hsame := Except.ok.inj (congrArg Prod.fst (he.symm.trans he'))
  exact ⟨r, b', hrun, congrArg Prod.snd hsame⟩

end Indexer

end Compendium
