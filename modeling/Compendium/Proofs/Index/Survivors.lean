import Compendium.Proofs.Index.Reindex
import Compendium.Proofs.Store.Replacement

/-!
What a reindexing stores. Whichever of the embeddings fail, the chunks that are listed afterwards are the segments
whose embedding came, in their order and numbered without gaps, each with the vector of its own call.
-/
namespace Compendium

def Outcome.vector? : Outcome → Option Embedding
  | .vector v => some v
  | _ => none

theorem vector?_eq_none {o : Outcome} (h : ∀ v, o ≠ .vector v) : o.vector? = none := by
  cases o with
  | vector v => exact absurd rfl (h v)
  | fails e => rfl
  | hangs => rfl

namespace Indexer

open Number (Numeral)
open Compendium.Action (runOn runOn_bind runOn_bind_ok)

def answers (provider : Provider) : (past : List String) → List String → List Outcome
  | _, [] => []
  | past, t :: rest => provider past t :: answers provider (past ++ [t]) rest

/-- The segments of a document whose embedding came, each with the vector of its own call. -/
def survivors (provider : Provider) (past : List String) (x : Source) (segments : List String) :
    List (String × Embedding) :=
  (segments.zip (answers provider past (segments.map x.input))).filterMap fun e => e.2.vector?.map fun v => (e.1, v)

def numbered (kept : List (String × Embedding)) : List Piece :=
  kept.zipIdx.map fun e => ⟨e.2, e.1.1, some e.1.2⟩

/-- The chunk of a segment that is kept, when `issued` ids were given out before the first. -/
def chunkAt (d : Document) (issued : Nat) (now : Time) (e : (String × Embedding) × Nat) : Chunk :=
  ⟨Action.idText (issued + e.2 + 1), d.id, e.2, e.1.1, some e.1.2, some now⟩

def kept (ix : Indexer) (b : Base) (d : Document) : List (String × Embedding) :=
  survivors b.provider b.asked d.source (Segment.segmentText ix.budget d.content)

def chunksMade (ix : Indexer) (b : Base) (d : Document) : List Chunk :=
  (ix.kept b d).zipIdx.map (chunkAt d b.issued (Time.ofUnixMicros b.clock))

/-- An answer that costs a chunk at most. -/
def Passes (ix : Indexer) : Outcome → Prop
  | .vector _ => True
  | .fails e => isPassing e = true
  | .hangs => ix.embedLimit.isSome = true

/-- A provider that makes the same of a text every time. -/
def Constant (provider : Provider) : Prop := ∀ past past' text, provider past text = provider past' text

theorem survivors_cons (provider : Provider) (past : List String) (x : Source) (s : String) (rest : List String) :
    survivors provider past x (s :: rest) =
      ((provider past (x.input s)).vector?.map fun v => (s, v)).toList ++
        survivors provider (past ++ [x.input s]) x rest := by
  rw [survivors, List.map_cons, answers, List.zip_cons_cons, survivors]
  cases h : (provider past (x.input s)).vector? with
  | none => rw [List.filterMap_cons_none (by simp [h])]; rfl
  | some v => rw [List.filterMap_cons_some (by simp only [h]; rfl)]; rfl

theorem answers_constant {provider : Provider} (h : Constant provider) (texts : List String) :
    ∀ past past', answers provider past texts = answers provider past' texts := by
  induction texts with
  | nil => exact fun _ _ => rfl
  | cons t rest ih =>
    intro past past'
    rw [answers, answers, h past past', ih (past ++ [t]) (past' ++ [t])]

/-- For a constant provider it does not matter what was asked before. -/
theorem survivors_constant {provider : Provider} (h : Constant provider) (past past' : List String) (x : Source)
    (segments : List String) : survivors provider past x segments = survivors provider past' x segments := by
  rw [survivors, survivors, answers_constant h _ past past']

/-- Kept segments are numbered in a row, however many failed between them. -/
theorem numbered_eq (d : Document) (issued : Nat) (now : Time) (kept : List (String × Embedding)) :
    (kept.zipIdx.map (chunkAt d issued now)).map Chunk.piece = numbered kept := by
  rw [List.map_map, numbered]
  rfl

/-- When the embedding of a document goes through, the chunks are those of the survivors, behind the ones that were
made before. -/
theorem embedAll_survivors {ix : Indexer} {d : Document} {issued : Nat} {segments : List String} :
    ∀ {left : Option Float} {position : Nat} {made : List Chunk} {failed : Nat} {chunks : List Chunk} {failed' : Nat}
      {b b' : Base}, b.issued = issued + made.length →
      runOn (embedAll ix d left position made failed segments) b = (.ok (chunks, failed'), b') →
      chunks = made ++ ((survivors b.provider b.asked d.source segments).zipIdx made.length).map
        (chunkAt d issued (Time.ofUnixMicros b.clock)) := by
  induction segments with
  | nil =>
    intro left position made failed chunks failed' b b' hissued h
    cases h
    simp [survivors]
  | cons s rest ih =>
    intro left position made failed chunks failed' b b' hissued h
    rw [survivors_cons]
    cases embedAll_turn ix d left position made failed s rest b with
    | kept v hv hrun =>
      have hissued' : b.issued + 1 = issued + (made.length + 1) := by rw [hissued, Nat.add_assoc]
      have hchunks := ih (by simpa using hissued') (hrun.symm.trans h)
      rw [hchunks, hissued, hv]
      simp [Outcome.vector?, chunkAt, List.zipIdx_cons]
    | passed left' es _ hnone hrun =>
      rw [vector?_eq_none hnone]
      refine ih ?_ (hrun.symm.trans h)
      exact hissued
    | ended e _ hrun => cases hrun.symm.trans h

theorem eq_chunksMade {ix : Indexer} {d : Document} {left : Option Float} {b c : Base} {es : List Entry}
    {chunks : List Chunk} {failed : Nat}
    (h : runOn (embedAll ix d left 0 [] 0 (Segment.segmentText ix.budget d.content)) (b.noting es) =
      (.ok (chunks, failed), c)) : chunks = ix.chunksMade b d := by
  have hissued : (b.noting es).issued = b.issued + ([] : List Chunk).length := rfl
  rw [embedAll_survivors hissued h, List.nil_append]
  rfl

/-- When no answer costs more than a chunk, the embedding of a document goes through. -/
theorem embedAll_passes {ix : Indexer} {d : Document} {segments : List String} :
    ∀ (position : Nat) (made : List Chunk) (failed : Nat) {b : Base},
      (∀ o ∈ answers b.provider b.asked (segments.map d.source.input), ix.Passes o) →
      ∃ found b', runOn (embedAll ix d none position made failed segments) b = (.ok found, b') := by
  induction segments with
  | nil => exact fun _ made failed b _ => ⟨(made, failed), b, rfl⟩
  | cons s rest ih =>
    intro position made failed b h
    rw [List.map_cons, answers, List.forall_mem_cons] at h
    obtain ⟨hfirst, hrest⟩ := h
    cases embedAll_turn ix d none position made failed s rest b with
    | kept v _ hrun =>
      rw [hrun]
      exact ih _ _ _ hrest
    | passed left' es hl _ hrun =>
      obtain rfl : left' = none := by simpa using hl
      rw [hrun]
      exact ih _ _ _ hrest
    | ended e hends =>
      generalize b.provider b.asked (d.source.input s) = o at hends hfirst
      cases hends with
      | failed hp =>
        rw [show isPassing e = true from hfirst] at hp
        cases hp
      | stopped hl =>
        have hlimit : ix.embedLimit.isSome = true := hfirst
        rcases hl with hl | hl
        · rw [hl] at hlimit
          cases hlimit
        · cases hl

theorem reindex_ok {ix : Indexer} {id : String} {limit : Option Numeral} {b b' : Base} {r : Reindexed}
    (h : runOn (ix.reindex id limit) b = (.ok r, b')) :
    ∃ left c e, runOn (ix.remake left id) b = (.ok r, c) ∧ b' = c.noting [e] := by
  have hwithin : ∀ {left : Option Float}, runOn (ix.reindexWithin left id) b = (.ok r, b') →
      ∃ left c e, runOn (ix.remake left id) b = (.ok r, c) ∧ b' = c.noting [e] := by
    intro left hrun
    obtain ⟨e, he⟩ := Action.runOn_probed "indexer.reindex" [("document_id", .text id)] (ix.remake left id) b
    obtain ⟨ho, rfl⟩ := Prod.mk.inj (he.symm.trans hrun)
    exact ⟨left, _, e, Prod.ext ho rfl, rfl⟩
  cases limit with
  | none => exact hwithin h
  | some t =>
    rw [reindex] at h
    split at h
    · cases h
    · rw [runOn_bind, Action.runOn_attempt] at h
      rcases hw : runOn (ix.reindexWithin (some t.toFloat) id) b with ⟨outcome, c⟩
      rw [hw] at h
      dsimp only at h
      split at h
      · cases h
      · rw [Action.runOn_ofExcept] at h
        exact hwithin (hw.trans h)

/-- A reindexing goes through when the document can be read, no answer costs more than a chunk, and the chunks are
taken. -/
theorem reindex_passes {ix : Indexer} {id : String} {b : Base} {d : Document} {s : Store}
    (hreading : b.refusals.reading id = false) (hd : (Store.document id b.store).outcome = .ok d)
    (hpass : ∀ o ∈ answers b.provider b.asked ((Segment.segmentText ix.budget d.content).map d.source.input),
      ix.Passes o)
    (hreplacing : b.refusals.replacing id = false)
    (hs : Store.replace (Time.ofUnixMicros b.clock) id (ix.chunksMade b d) b.store = .ok s) :
    ∃ r b', runOn (ix.reindex id) b = (.ok r, b') := by
  obtain ⟨r, b', -, -, hrun, -⟩ := reindex_of_embedAll hreading hd hreplacing fun es => by
    obtain ⟨⟨chunks, failed⟩, c, hembed⟩ := embedAll_passes (b := b.noting es) 0 [] 0 hpass
    obtain rfl := eq_chunksMade hembed
    exact ⟨_, failed, c, s, hembed, hs⟩
  exact ⟨r, b', hrun⟩

/-- Chunks of survivors are in the order of their numbers. -/
theorem byIndex_survivors (d : Document) (issued : Nat) (now : Time) (kept : List (String × Embedding)) :
    Memory.byIndex (kept.zipIdx.map (chunkAt d issued now)) = kept.zipIdx.map (chunkAt d issued now) := by
  have hindex : ∀ e, (chunkAt d issued now e).index = Int.ofNat e.2 := fun _ => rfl
  have hindexes : (kept.zipIdx.map (chunkAt d issued now)).map Chunk.index =
      (List.range' 0 (kept.zipIdx.map (chunkAt d issued now)).length).map Int.ofNat := by
    simp only [List.map_map, Function.comp_def, hindex, List.length_map, List.length_zipIdx]
    rw [← List.zipIdx_map_snd 0 kept, List.map_map]
    rfl
  exact byIndex_eq_self hindexes

/-- What a reindexing that went through has done: it has asked once for each segment, below the document's category
and title, and what is listed of the document is what was kept, while the rest of the store is as it was. -/
structure Survived (ix : Indexer) (id : String) (b : Base) (d : Document) (r : Reindexed) (b' : Base) : Prop where
  asked : b'.asked = b.asked ++ (Segment.segmentText ix.budget d.content).map fun s =>
    "[category: " ++ d.category ++ "] [title: " ++ d.title ++ "]\n" ++ s
  listed : Store.Listed id (numbered (ix.kept b d)) b.store b'.store
  segments : r.segments = (Segment.segmentText ix.budget d.content).length
  stored : r.chunks.length = (ix.kept b d).length
  total : r.chunks.length + r.failed = r.segments

/-- A reindexing that went through has stored the survivors and nothing else. -/
theorem reindex_survived {ix : Indexer} {id : String} {limit : Option Numeral} {b b' : Base} {r : Reindexed}
    (h : runOn (ix.reindex id limit) b = (.ok r, b')) :
    ∃ d, (Store.document id b.store).outcome = .ok d ∧ Survived ix id b d r b' ∧ b'.provider = b.provider := by
  obtain ⟨left, c, e, hremake, rfl⟩ := reindex_ok h
  rcases remake_cases hremake with ⟨f, herror, -⟩ | ⟨r', d, c', hok, hsteps⟩
  · cases herror
  obtain rfl := Except.ok.inj hok
  obtain ⟨es, hembed⟩ := hsteps.embedded
  have hdone := hsteps.done
  have hchunks : r.chunks = ix.chunksMade b d := eq_chunksMade hembed
  obtain ⟨now, hreplace⟩ := hdone.replaced
  have hlisted := Store.replace_listed hreplace
  rw [hsteps.document, hchunks, chunksMade, byIndex_survivors, numbered_eq] at hlisted
  refine ⟨d, hsteps.read, ⟨hdone.asked, hlisted, hsteps.segments, by simp [hchunks, chunksMade], ?_⟩,
    hdone.provider⟩
  rw [hsteps.segments, Nat.add_comm]
  exact hdone.count

/-- A reindexing stores the segments whose embedding came. It goes through whichever of them fail, if the document can
be read and the chunks are taken. With a provider that makes the same of a text every time, reindexing again lists the
same, but for ids and times. -/
theorem reindex_stores_survivors (ix : Indexer) (id : String) (b : Base) :
    (∀ d s, b.refusals.reading id = false → (Store.document id b.store).outcome = .ok d →
      (∀ o ∈ answers b.provider b.asked ((Segment.segmentText ix.budget d.content).map d.source.input),
        ix.Passes o) → b.refusals.replacing id = false →
      Store.replace (Time.ofUnixMicros b.clock) id (ix.chunksMade b d) b.store = .ok s →
      ∃ r b', runOn (ix.reindex id) b = (.ok r, b')) ∧
    ∀ limit r b', runOn (ix.reindex id limit) b = (.ok r, b') →
      ∃ d, (Store.document id b.store).outcome = .ok d ∧ Survived ix id b d r b' ∧
        (Constant b.provider → ∀ limit' r' b'', runOn (ix.reindex id limit') b' = (.ok r', b'') →
          Store.Listed id (numbered (ix.kept b d)) b'.store b''.store) := by
  refine ⟨fun d s hreading hd hpass hreplacing hs => reindex_passes hreading hd hpass hreplacing hs, ?_⟩
  intro limit r b' h
  obtain ⟨d, hd, hsurvived, hprovider⟩ := reindex_survived h
  refine ⟨d, hd, hsurvived, fun hconstant limit' r' b'' h' => ?_⟩
  obtain ⟨d', hd', hsurvived', -⟩ := reindex_survived h'
  rw [hsurvived.listed.document_eq, hd] at hd'
  obtain rfl := Except.ok.inj hd'
  have hkept : ix.kept b' d = ix.kept b d := by
    rw [kept, kept, hprovider]
    exact survivors_constant hconstant _ _ _ _
  exact hkept ▸ hsurvived'.listed

/-- A database with a note of two sections. The provider makes a vector for the first section and fails at the
second. -/
def skipping : Base where
  store := ((Store.table ⟨unfiledPath, true, {}⟩).run (Time.ofUnixMicros 0)
    (.put { Store.note with content := "# A\n\nx\n\n# B\n\ny" })).2
  provider := fun past _ => if past.isEmpty then .vector [⟨0⟩] else .fails (.embedding .malformed)

/-- The embedding of the second section fails, and the first one alone is stored. -/
theorem reindex_stores_survivors_skipping :
    ∃ r b' d, runOn (({} : Indexer).reindex "a") skipping = (.ok r, b') ∧ r.failed = 1 ∧
      (Store.document "a" skipping.store).outcome = .ok d ∧ Survived {} "a" skipping d r b' := by
  have hfailed : (runOn (({} : Indexer).reindex "a") skipping).1.toOption.map Reindexed.failed = some 1 := by
    decide +kernel
  rcases hrun : runOn (({} : Indexer).reindex "a") skipping with ⟨outcome, b'⟩
  rw [hrun] at hfailed
  cases outcome with
  | error e => cases hfailed
  | ok r =>
    obtain ⟨d, hd, hsurvived, -⟩ := (reindex_stores_survivors {} "a" skipping).2 none r b' hrun
    exact ⟨r, b', d, rfl, Option.some.inj hfailed, hd, hsurvived⟩

end Indexer

end Compendium
