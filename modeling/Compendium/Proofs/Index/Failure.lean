import Compendium.Proofs.Index.Reindex
import Compendium.Proofs.Store.Replacement

/-!
Why a reindexing fails, and what it leaves behind when it does. The chunks are exchanged at the end, by the last step
that can fail, so whatever went wrong the store is as it was. The failure of a single embedding costs a chunk; it is
never what the call as a whole fails with.
-/
namespace Compendium.Indexer

open Number (Numeral)
open Compendium.Action (runOn runOn_bind runOn_bind_error)

theorem Ends.congr {ix : Indexer} {left left' : Option Float} (h : left'.isSome = left.isSome) {o : Outcome} {e : Fault}
    (ho : Ends ix left' o e) : Ends ix left o e := by
  cases ho with
  | failed hp => exact .failed hp
  | stopped hl => exact .stopped (h ▸ hl)

/-- When the embedding of a document fails, the answer to one of its segments has ended it. -/
theorem embedAll_error {ix : Indexer} {d : Document} {segments : List String} :
    ∀ {left : Option Float} {position : Nat} {made : List Chunk} {failed : Nat} {b b' : Base} {e : Fault},
      runOn (embedAll ix d left position made failed segments) b = (.error e, b') →
      ∃ s ∈ segments, ∃ past, Ends ix left (b.provider past (d.source.input s)) e := by
  induction segments with
  | nil =>
    intro left position made failed b b' e h
    cases h
  | cons s rest ih =>
    intro left position made failed b b' e h
    have hlater : ∀ {left' : Option Float} {position : Nat} {made : List Chunk} {failed : Nat} {c c' : Base},
        runOn (embedAll ix d left' position made failed rest) c = (.error e, c') →
        left'.isSome = left.isSome → c.provider = b.provider →
        ∃ s' ∈ s :: rest, ∃ past, Ends ix left (b.provider past (d.source.input s')) e := by
      intro left' position made failed c c' hrest hl hc
      obtain ⟨s', hs, past, hends⟩ := ih hrest
      rw [hc] at hends
      exact ⟨s', List.mem_cons_of_mem s hs, past, hends.congr hl⟩
    cases embedAll_turn ix d left position made failed s rest b with
    | kept v _ hrun => exact hlater (hrun.symm.trans h) rfl rfl
    | passed left' es hl _ hrun => exact hlater (hrun.symm.trans h) hl rfl
    | ended f hends hrun =>
      cases hrun.symm.trans h
      exact ⟨s, List.mem_cons_self, b.asked, hends⟩

/-! What goes wrong around the embedding is a failure of the store. -/

/-- A document is unknown, or the database is closed. -/
theorem document_error {s : Store} {id : String} {e : Fault} (h : (Store.document id s).outcome = .error e) :
    e = .unknownDocument id ∨ e = .store (.query .closed) := by
  cases s with
  | memory m =>
    simp only [Store.document, Reading.outcome_ofExcept, Memory.document] at h
    split at h
    · cases h
    · cases h
      exact .inl rfl
  | table d =>
    simp only [Store.document, Database.document, Database.reading] at h
    split at h
    next =>
      split at h
      next r _ =>
        obtain ⟨x, hx, -⟩ := DocumentRow.read_outcome r
        cases hx.symm.trans h
      next =>
        cases h
        exact .inl rfl
    next =>
      cases h
      exact .inr rfl

inductive Rejection (id : String) : Fault → Prop where
  | unknown : Rejection id (.unknownDocument id)
  | tooLarge : Rejection id .numberTooLarge
  | store (f : StoreFault) : Rejection id (.store f)

theorem addChunks_error {id : String} {rows : List ChunkRow} {t : Tables} {e : Fault}
    (h : t.addChunks id rows = .error e) : Rejection id e := by
  induction rows generalizing t with
  | nil => cases h
  | cons r rows ih =>
    rw [Tables.addChunks] at h
    split at h
    · cases h
      exact .tooLarge
    · split at h
      · cases h
        exact .store _
      · exact ih h

theorem replace_error {s : Store} {now : Time} {id : String} {cs : List Chunk} {e : Fault}
    (h : Store.replace now id cs s = .error e) : Rejection id e := by
  cases s with
  | memory m =>
    rw [Store.replace, Memory.replace] at h
    split at h
    · cases h
    · cases h
      exact .unknown
  | table d =>
    by_cases hvectors : ∀ c ∈ cs, c.vector.isSome
    · rw [Store.replace, Store.database_replace_eq now id hvectors] at h
      split at h
      · cases h
        exact .store _
      · split at h
        · cases h
          exact .unknown
        · cases ht : (d.tables.dropChunks id).addChunks id (Store.rowsFor now id cs) with
          | ok t =>
            rw [ht] at h
            cases h
          | error f =>
            rw [ht] at h
            cases h
            exact addChunks_error ht
    · rw [Store.replace, Database.replace, Store.mapM_ofChunk_refused now id (by simpa using hvectors)] at h
      cases h
      exact .store _

/-- Why the work of a reindexing fails: the document cannot be read, the answer to one of its segments ends the work,
or the chunks are not taken. -/
inductive Setback (ix : Indexer) (left : Option Float) (id : String) (b : Base) : Fault → Prop where
  | refused (h : b.refusals.reading id = true) : Setback ix left id b (.store (.unreadable id))
  | unread {e : Fault} (h : (Store.document id b.store).outcome = .error e) : Setback ix left id b e
  | ended {d : Document} {s : String} {past : List String} {e : Fault}
      (read : (Store.document id b.store).outcome = .ok d)
      (segment : s ∈ Segment.segmentText ix.budget d.content)
      (h : Ends ix left (b.provider past (d.source.input s)) e) : Setback ix left id b e
  | full (h : b.refusals.replacing id = true) : Setback ix left id b (.store .diskFull)
  | rejected {d : Document} {cs : List Chunk} {e : Fault} (read : (Store.document id b.store).outcome = .ok d)
      (h : Store.replace (Time.ofUnixMicros b.clock) id cs b.store = .error e) : Setback ix left id b e

/-- The failure of a single embedding is none of them. -/
theorem Setback.not_passing {ix : Indexer} {left : Option Float} {id : String} {b : Base} {e : Fault}
    (h : Setback ix left id b e) : isPassing e = false := by
  cases h with
  | refused => rfl
  | unread h =>
    rcases document_error h with rfl | rfl
    · rfl
    · rfl
  | ended read segment h =>
    generalize b.provider _ _ = o at h
    cases h with
    | failed hp => exact hp
    | stopped => rfl
  | full => rfl
  | rejected read h =>
    cases replace_error h with
    | unknown => rfl
    | tooLarge => rfl
    | store f => rfl

theorem replaceChunks_error {id : String} {cs : List Chunk} {b b' : Base} {e : Fault}
    (h : runOn (Action.replaceChunks id cs) b = (.error e, b')) :
    b.refusals.replacing id = true ∧ e = .store .diskFull ∨
      Store.replace (Time.ofUnixMicros b.clock) id cs b.store = .error e := by
  simp only [Action.replaceChunks, runOn_bind, Action.runOn_refuseIf, Action.runOn_now, Action.runOn_writeStore] at h
  by_cases hr : b.refusals.replacing id = true
  · rw [if_pos hr] at h
    cases h
    exact .inl ⟨hr, rfl⟩
  · rw [if_neg hr] at h
    dsimp only at h
    split at h
    · cases h
    next f hf =>
      cases h
      exact .inr hf

theorem readDocument_error {id : String} {b b' : Base} {e : Fault}
    (h : runOn (Action.document id) b = (.error e, b')) :
    b.refusals.reading id = true ∧ e = .store (.unreadable id) ∨
      (Store.document id b.store).outcome = .error e := by
  simp only [Action.document, runOn_bind, Action.runOn_refuseIf, Action.runOn_readStore] at h
  by_cases hr : b.refusals.reading id = true
  · rw [if_pos hr] at h
    cases h
    exact .inl ⟨hr, rfl⟩
  · rw [if_neg hr] at h
    exact .inr (congrArg Prod.fst h)

/-- The work of a reindexing fails for one of three reasons, and has touched nothing. -/
theorem remake_error {ix : Indexer} {left : Option Float} {id : String} {b b' : Base} {e : Fault}
    (h : runOn (ix.remake left id) b = (.error e, b')) : Untouched b b' ∧ Setback ix left id b e := by
  constructor
  · rcases runOn_remake h with ⟨f, -, hu⟩ | ⟨r, d, hok, -⟩
    · exact hu
    · cases hok
  rw [remake, runOn_bind_error] at h
  rcases h with h | ⟨d, c, hd, h⟩
  · rcases readDocument_error h with ⟨hr, rfl⟩ | hread
    · exact .refused hr
    · exact .unread hread
  obtain ⟨es, rfl, hread⟩ : ∃ es, c = b.noting es ∧ (Store.document id b.store).outcome = .ok d := by
    rcases Action.runOn_document id b with hr | ⟨-, es, hr⟩
    · cases hr.symm.trans hd
    · obtain ⟨ho, hc⟩ := Prod.mk.inj (hr.symm.trans hd)
      exact ⟨es, hc.symm, ho⟩
  obtain ⟨es', hs⟩ := runOn_segmentsOf ix d (b.noting es)
  rw [runOn_bind, hs] at h
  dsimp only at h
  rw [runOn_bind_error] at h
  rcases h with h | ⟨⟨chunks, failed⟩, c', hc', h⟩
  · obtain ⟨s, hmem, past, hends⟩ := embedAll_error h
    exact .ended hread hmem hends
  · have hu : Untouched ((b.noting es).noting es') c' := (leads_embedAll ix d _ left 0 [] 0).of_run hc'
    dsimp only at h
    rw [runOn_bind_error] at h
    rcases h with h | ⟨u, c'', hr, h⟩
    · rcases replaceChunks_error h with ⟨hfull, rfl⟩ | hreplace
      · rw [hu.refusals] at hfull
        exact .full hfull
      · rw [hu.clock, hu.store] at hreplace
        exact .rejected hread hreplace
    · obtain ⟨es'', hrep⟩ :=
        runOn_report d ⟨id, (Segment.segmentText ix.budget d.content).length, chunks, failed⟩
        { c'' with meter := Meter.indexed chunks.length failed c''.meter }
      simp only [runOn_bind, Action.runOn_measure, hrep, Action.runOn_pure] at h
      cases h

/-- Why a reindexing fails: its work fails, or the time that it was given is over. -/
inductive Cause (ix : Indexer) (id : String) (limit : Option Numeral) (b : Base) : Fault → Prop where
  | setback {left : Option Float} {e : Fault} (limited : left.isSome = limit.isSome) (h : Setback ix left id b e)
      (stays : limit = none ∨ e ≠ .cancelled) : Cause ix id limit b e
  | late {t : Numeral} (limited : limit = some t)
      (h : t.toFloat ≤ 0.0 ∨ Setback ix (some t.toFloat) id b .cancelled) : Cause ix id limit b .timeout

theorem reindexWithin_error {ix : Indexer} {left : Option Float} {id : String} {b b' : Base} {e : Fault}
    (h : runOn (ix.reindexWithin left id) b = (.error e, b')) : Untouched b b' ∧ Setback ix left id b e := by
  obtain ⟨entry, he⟩ := Action.runOn_probed "indexer.reindex" [("document_id", .text id)] (ix.remake left id) b
  obtain ⟨hout, rfl⟩ := Prod.mk.inj (he.symm.trans h)
  obtain ⟨hu, hs⟩ := remake_error (Prod.ext hout rfl : runOn (ix.remake left id) b = (.error e, _))
  exact ⟨frame_untouched.trans hu (frame_untouched.noting _ _), hs⟩

/-- A reindexing that fails has touched nothing, and fails in its work or when its time is over. -/
theorem reindex_error {ix : Indexer} {id : String} {limit : Option Numeral} {b b' : Base} {e : Fault}
    (h : runOn (ix.reindex id limit) b = (.error e, b')) : Untouched b b' ∧ Cause ix id limit b e := by
  cases limit with
  | none =>
    obtain ⟨hu, hs⟩ := reindexWithin_error h
    exact ⟨hu, .setback rfl hs (.inl rfl)⟩
  | some t =>
    rw [reindex] at h
    split at h
    next hover =>
      cases h
      exact ⟨frame_untouched.refl _, .late rfl (.inl hover)⟩
    next =>
      rw [runOn_bind, Action.runOn_attempt] at h
      rcases hw : runOn (ix.reindexWithin (some t.toFloat) id) b with ⟨outcome, c⟩
      rw [hw] at h
      dsimp only at h
      split at h
      next =>
        cases h
        obtain ⟨hu, hs⟩ := reindexWithin_error hw
        exact ⟨hu, .late rfl (.inr hs)⟩
      next hstays =>
        rw [Action.runOn_ofExcept] at h
        obtain ⟨rfl, rfl⟩ := Prod.mk.inj h
        obtain ⟨hu, hs⟩ := reindexWithin_error hw
        exact ⟨hu, .setback rfl hs (.inr fun he => hstays (he ▸ rfl))⟩

/-- A reindexing that fails leaves the documents, all chunks and the logs as they were, wherever it failed. It fails
for a cause of its own: what costs a single chunk is not passed on, save that the time for the whole work is over. -/
theorem reindex_all_or_nothing {ix : Indexer} {id : String} {limit : Option Numeral} {b b' : Base} {e : Fault}
    (h : runOn (ix.reindex id limit) b = (.error e, b')) :
    Untouched b b' ∧ Cause ix id limit b e ∧ (isPassing e = true → e = .timeout ∧ limit.isSome = true) := by
  obtain ⟨hu, hc⟩ := reindex_error h
  refine ⟨hu, hc, fun hp => ?_⟩
  cases hc with
  | setback limited hs stays => rw [hs.not_passing] at hp; cases hp
  | late limited => exact ⟨rfl, by rw [limited]; rfl⟩

/-- A database with a note of two sections and an old chunk of it. The provider makes a vector for the first section
and breaks down at the second. -/
def halfway : Base where
  store :=
    let start := ((Store.table ⟨unfiledPath, true, {}⟩).run (Time.ofUnixMicros 0)
      (.put { Store.note with content := "# A\n\nx\n\n# B\n\ny" })).2
    (start.run (Time.ofUnixMicros 0) (.replace "a" [Store.noteChunk 0])).2
  provider := fun past _ => if past.isEmpty then .vector [] else .fails (.raised .value "broken")

theorem exists_error {α : Type} (work : Action α) (b : Base) (h : (runOn work b).1.toOption.isNone = true) :
    ∃ e, runOn work b = (.error e, (runOn work b).2) := by
  rcases hr : runOn work b with ⟨outcome, b'⟩
  rw [hr] at h
  cases outcome with
  | error e => exact ⟨e, rfl⟩
  | ok a => cases h

/-- The provider breaks down at the second of two sections, and the old chunk stays. -/
theorem reindex_all_or_nothing_halfway :
    ∃ e b', runOn (({} : Indexer).reindex "a") halfway = (.error e, b') ∧ b'.asked.length = 2 ∧
      halfway.store.chunkIds = ["p"] ∧ Untouched halfway b' ∧ Cause {} "a" none halfway e ∧
      (isPassing e = true → e = .timeout ∧ (none : Option Numeral).isSome = true) := by
  obtain ⟨e, h⟩ := exists_error (({} : Indexer).reindex "a") halfway (by decide +kernel)
  exact ⟨e, _, h, by decide +kernel, by decide +kernel, reindex_all_or_nothing h⟩

end Compendium.Indexer
