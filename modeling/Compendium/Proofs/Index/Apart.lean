import Compendium.Proofs.Index.Attempts
import Compendium.Proofs.Index.Survivors

/-!
What reindexing one document leaves to the others. It takes nothing that another one needs: with a provider that makes
the same of a text every time, each document comes to the same whatever was reindexed before it.
-/
namespace Compendium

open Compendium.Action (runOn runOn_bind)
open Number (Numeral)

/-- Two bases with the same provider and refusals, whose stores give the same documents and have the same room. -/
structure Base.Beside (b c : Base) : Prop where
  provider : c.provider = b.provider
  refusals : c.refusals = b.refusals
  documents : ∀ id, (Store.document id c.store).outcome = (Store.document id b.store).outcome
  room : ∀ n, c.store.HasRoom n ↔ b.store.HasRoom n

theorem Base.Beside.refl (b : Base) : b.Beside b := ⟨rfl, rfl, fun _ => rfl, fun _ => .rfl⟩

theorem Base.Beside.trans {b c d : Base} (h : b.Beside c) (h' : c.Beside d) : b.Beside d where
  provider := h'.provider.trans h.provider
  refusals := h'.refusals.trans h.refusals
  documents id := (h'.documents id).trans (h.documents id)
  room n := (h'.room n).trans (h.room n)

/-- A base in which no chunk bears an id that is still to be given out. -/
def Base.Fresh (b : Base) : Prop := ∀ n, b.issued < n → Action.idText n ∉ b.store.chunkIds

/-- What a reindexing came to, but for the ids and times of its chunks. -/
def Reindexed.gist (r : Reindexed) : List Piece × Nat := (r.chunks.map Chunk.piece, r.failed)

namespace Indexer

/-- What is left of a document that came to this: its new chunks, or the ones that it had. -/
structure Settled (id : String) (outcome : Except Fault Reindexed) (b c : Base) : Prop where
  stored : ∀ r, outcome = .ok r →
    ∃ cs, (Store.chunksOf id c.store).outcome = .ok cs ∧ cs.map Chunk.piece = r.chunks.map Chunk.piece
  kept : ∀ e, outcome = .error e → (Store.chunksOf id c.store).outcome = (Store.chunksOf id b.store).outcome

theorem Settled.congr {id : String} {outcome : Except Fault Reindexed} {b b' c c' : Base} (h : Settled id outcome b c)
    (hbefore : (Store.chunksOf id b.store).outcome = (Store.chunksOf id b'.store).outcome)
    (hafter : (Store.chunksOf id c'.store).outcome = (Store.chunksOf id c.store).outcome) :
    Settled id outcome b' c' where
  stored r hr := by
    rw [hafter]
    exact h.stored r hr
  kept e he := by rw [hafter, h.kept e he, hbefore]

/-- What a reindexing that came to this leaves: the documents as they were, other chunks as they were, and of its own
document the new chunks, or the old ones if it failed. -/
structure Parted (id : String) (b : Base) (outcome : Except Fault Reindexed) (c : Base) : Prop where
  beside : b.Beside c
  others : ∀ other, other ≠ id → (Store.chunksOf other c.store).outcome = (Store.chunksOf other b.store).outcome
  settled : Settled id outcome b c
  fresh : b.Fresh → c.Fresh

theorem Untouched.fresh {b c : Base} (h : Untouched b c) (hb : b.Fresh) : c.Fresh := fun n hn => by
  rw [h.store]
  exact hb n (Nat.lt_of_le_of_lt h.issued hn)

theorem Done.fresh {ix : Indexer} {d : Document} {b c : Base} {r : Reindexed} (h : Done ix d b r c) (hb : b.Fresh) :
    c.Fresh := by
  obtain ⟨now, hreplace⟩ := h.replaced
  intro n hn hmem
  rcases Store.chunkIds_replace hreplace _ hmem with hold | hnew
  · exact hb n (Nat.lt_of_le_of_lt h.issued hn) hold
  · rw [h.made.ids] at hnew
    obtain ⟨m, hm, heq⟩ := List.mem_map.1 hnew
    have := List.mem_range'_1.1 hm
    have := h.given
    have := Action.idText_inj heq
    omega

/-- However a reindexing ends, its outcome tells what becomes of its document, and the other documents keep their
chunks. -/
theorem reindex_parted (ix : Indexer) (id : String) (b : Base) :
    Parted id b (runOn (ix.reindex id) b).1 (runOn (ix.reindex id) b).2 := by
  rcases hrun : runOn (ix.reindex id) b with ⟨outcome, c⟩
  rcases runOn_reindex hrun with ⟨e, rfl, hu⟩ | ⟨r, d, rfl, rfl, -, hdone⟩
  · have hbeside : b.Beside c := ⟨hu.provider, hu.refusals, fun _ => by rw [hu.store], fun _ => by rw [hu.store]⟩
    exact ⟨hbeside, fun _ _ => by rw [hu.store], ⟨nofun, fun _ _ => by rw [hu.store]⟩, hu.fresh⟩
  · obtain ⟨now, hreplace⟩ := hdone.replaced
    have hlisted := Store.replace_listed hreplace
    have hbeside : b.Beside c :=
      ⟨hdone.provider, hdone.refusals, hlisted.document_eq, Store.hasRoom_replace hreplace⟩
    obtain ⟨cs, hcs, hpieces⟩ := hlisted.own
    rw [byIndex_eq_self hdone.made.indexes] at hpieces
    refine ⟨hbeside, hlisted.others, ⟨fun r' hr' => ?_, nofun⟩, hdone.fresh⟩
    obtain rfl := Except.ok.inj hr'
    exact ⟨cs, hcs, hpieces⟩

/-- Documents that are not attempted keep their chunks. -/
theorem attempts_others (ix : Indexer) (ids : List String) {other : String} (h : other ∉ ids) (b : Base) :
    (Store.chunksOf other (ix.attempts ids b).2.store).outcome = (Store.chunksOf other b.store).outcome := by
  induction ids generalizing b with
  | nil => rfl
  | cons id rest ih =>
    rw [List.mem_cons, not_or] at h
    exact (ih h.2 _).trans ((ix.reindex_parted id b).others other h.1)

/-! The same again. -/

def answered (limit : Option Numeral) : Outcome → Except Fault (Except Fault Embedding)
  | .vector v => .ok (.ok v)
  | .fails e => .ok (.error e)
  | .hangs => if limit.isNone then .error .cancelled else .ok (.error .timeout)

/-- Where nothing limits the work as a whole, an embedding hangs on the answer alone. -/
theorem runOn_embed_untimed (limit : Option Numeral) (text : String) (b : Base) :
    runOn (embed limit none text) b =
      ((answered limit (b.provider b.asked text)).map fun r => (r, none), { b with asked := b.asked ++ [text] }) := by
  simp only [embed, runOn_bind, Action.runOn_ask]
  cases b.provider b.asked text with
  | vector v => rfl
  | fails e => rfl
  | hangs => cases limit <;> rfl

/-- Segments make the same chunks again, but for ids and times. -/
theorem embedAll_congr (ix : Indexer) (d : Document) (segments : List String) :
    ∀ (position : Nat) (made made' : List Chunk) (failed : Nat) (b c : Base), Constant b.provider →
      c.provider = b.provider → made'.map Chunk.piece = made.map Chunk.piece →
      (runOn (embedAll ix d none position made' failed segments) c).1.map (Prod.map (List.map Chunk.piece) id) =
        (runOn (embedAll ix d none position made failed segments) b).1.map (Prod.map (List.map Chunk.piece) id) := by
  induction segments with
  | nil =>
    intro position made made' failed b c _ _ hmade
    change Except.ok (made'.map Chunk.piece, failed) = Except.ok (made.map Chunk.piece, failed)
    rw [hmade]
  | cons s rest ih =>
    intro position made made' failed b c hconstant hprovider hmade
    -- Of the chunks made so far the work behind this segment needs the pieces, and for the next number how many there
    -- are.
    have hlength : made'.length = made.length := by simpa using congrArg List.length hmade
    rw [embedAll, embedAll, runOn_bind, runOn_bind, runOn_embed_untimed, runOn_embed_untimed, hprovider,
      hconstant c.asked b.asked]
    cases answered ix.embedLimit (b.provider b.asked (Embedding.chunkInput d.category d.title s)) with
    | error e => rfl
    | ok result =>
      cases result with
      | ok v =>
        simp only [Except.map, runOn_bind, Action.runOn_newId, Action.runOn_now]
        refine ih _ _ _ _ _ _ hconstant rfl ?_
        simp [hmade, hlength, Chunk.piece]
      | error e =>
        cases hpassing : isPassing e with
        | false => simp [Except.map, hpassing]
        | true =>
          simp only [Except.map, hpassing, Bool.not_true, Bool.false_eq_true, if_false, runOn_bind, Action.runOn_log]
          exact ih _ _ _ _ _ _ hconstant rfl hmade

/-- Chunks that were just made of a stored document are taken unless the call is refused or there are too many. -/
theorem replaceChunks_made {ix : Indexer} {id : String} {d : Document} {segments : List String} {b b' : Base}
    {chunks : List Chunk} {failed : Nat} (hd : (Store.document id b.store).outcome = .ok d) (hfresh : b.Fresh)
    (h : runOn (embedAll ix d none 0 [] 0 segments) b = (.ok (chunks, failed), b')) :
    (runOn (Action.replaceChunks id chunks) b).1 =
      if b.refusals.replacing id then .error (.store .diskFull)
      else if b.store.HasRoom chunks.length then .ok () else .error .numberTooLarge := by
  obtain ⟨new, hnew, hmade, -⟩ := embedAll_ok h
  obtain rfl : chunks = new := hnew
  have hvectors : ∀ c ∈ chunks, c.vector.isSome := by
    intro c hc
    obtain ⟨past, v, -, hv⟩ := hmade.vector c hc
    rw [hv]
    rfl
  have hids : ∀ c ∈ chunks, c.id ∉ b.store.chunkIds := by
    intro c hc
    obtain ⟨n, hn, hid⟩ := List.mem_map.1 (hmade.ids ▸ List.mem_map_of_mem (f := Chunk.id) hc)
    have := List.mem_range'_1.1 hn
    exact hid ▸ hfresh n (by omega)
  have hreplace := Store.replace_new (Time.ofUnixMicros b.clock) hd hvectors hmade.indexes hmade.nodup hids
  rw [replaceChunks_outcome]
  congr 1
  by_cases hroom : b.store.HasRoom chunks.length
  · obtain ⟨s, hs⟩ := hreplace.1 hroom
    rw [hs, if_pos hroom]
    rfl
  · rw [hreplace.2 hroom, if_neg hroom]
    rfl

/-- Beside each other, bases make the same of a document. -/
theorem reindex_congr (ix : Indexer) (id : String) {b c : Base} (h : b.Beside c) (hconstant : Constant b.provider)
    (hb : b.Fresh) (hc : c.Fresh) :
    (runOn (ix.reindex id) c).1.map Reindexed.gist = (runOn (ix.reindex id) b).1.map Reindexed.gist := by
  have hread : (runOn (Action.document id) c).1 = (runOn (Action.document id) b).1 := by
    rw [document_outcome, document_outcome, h.refusals, h.documents]
  rw [reindex_outcome, reindex_outcome, comesTo, comesTo, hread]
  cases hdocument : (runOn (Action.document id) b).1 with
  | error e => rfl
  | ok d =>
    have hd : (Store.document id b.store).outcome = .ok d := by
      rw [document_outcome] at hdocument
      split at hdocument
      · cases hdocument
      · exact hdocument
    have hembed := embedAll_congr ix d (Segment.segmentText ix.budget d.content) 0 [] [] 0 b c hconstant h.provider rfl
    rcases hrun : runOn (embedAll ix d none 0 [] 0 (Segment.segmentText ix.budget d.content)) b with ⟨outcome, b'⟩
    rcases hrun' : runOn (embedAll ix d none 0 [] 0 (Segment.segmentText ix.budget d.content)) c with ⟨outcome', c'⟩
    rw [hrun, hrun'] at hembed
    rw [ok_bind, ok_bind]
    dsimp only
    rw [hrun, hrun']
    cases outcome with
    | error e =>
      cases outcome' with
      | error e' =>
        obtain rfl := Except.error.inj hembed
        rfl
      | ok made' => cases hembed
    | ok made =>
      cases outcome' with
      | error e' => cases hembed
      | ok made' =>
        obtain ⟨chunks, failed⟩ := made
        obtain ⟨chunks', failed'⟩ := made'
        obtain ⟨hpieces, hfailed⟩ := Prod.mk.inj (Except.ok.inj hembed)
        have hlength : chunks'.length = chunks.length := by simpa using congrArg List.length hpieces
        have hd' : (Store.document id c.store).outcome = .ok d := (h.documents id).trans hd
        rw [ok_bind, ok_bind, replaceChunks_made hd hb hrun, replaceChunks_made hd' hc hrun', h.refusals, hlength]
        simp only [h.room]
        generalize (if b.refusals.replacing id then Except.error (Fault.store .diskFull)
          else if b.store.HasRoom chunks.length then Except.ok () else Except.error Fault.numberTooLarge) = taken
        cases taken with
        | error e => rfl
        | ok _ => exact congrArg Except.ok (Prod.ext hpieces hfailed)

end Indexer

end Compendium
