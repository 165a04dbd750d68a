import Compendium.Proofs.Index.Apart
import Compendium.Proofs.Index.Failure
import Compendium.Proofs.Index.Stopping

/-!
A provider that is down. The failure of an embedding costs a chunk and not the document, so a document of which every
embedding fails is reindexed with no chunks at all and does not count as failed. What a batch stops at are the documents
that the store withholds.
-/
namespace Compendium.Indexer

open Compendium.Action (runOn)

/-- A provider at which every embedding fails. -/
def Down (provider : Provider) : Prop := ∀ past text, ∃ e, provider past text = .fails e ∧ e.isA .embedding = true

/-- The store does not give a document, or does not take chunks for it. -/
def Withheld (b : Base) (id : String) : Prop :=
  b.refusals.reading id = true ∨ b.refusals.replacing id = true ∨
    ∃ e, (Store.document id b.store).outcome = .error e

/-- What a document comes to while the provider is down. -/
inductive Met (b : Base) (id : String) : Except Fault Reindexed → Prop where
  | withheld {e : Fault} (h : Withheld b id) (general : e.isA .general = true) : Met b id (.error e)
  | emptied {r : Reindexed} (h : ¬Withheld b id) (chunks : r.chunks = []) : Met b id (.ok r)

theorem not_withheld {b : Base} {id : String} {d : Document} (hreading : b.refusals.reading id = false)
    (hreplacing : b.refusals.replacing id = false) (hd : (Store.document id b.store).outcome = .ok d) :
    ¬Withheld b id := by
  rintro (h | h | ⟨e, h⟩)
  · exact Bool.false_ne_true (hreading.symm.trans h)
  · exact Bool.false_ne_true (hreplacing.symm.trans h)
  · cases hd.symm.trans h

/-- What the store withholds does not hang on the chunks. -/
theorem withheld_congr {b c : Base} (h : b.Beside c) (id : String) : Withheld c id ↔ Withheld b id := by
  rw [Withheld, Withheld, h.refusals, h.documents]

section
variable {provider : Provider} (hdown : Down provider)
include hdown

theorem Down.vector?_eq_none (past : List String) (text : String) : (provider past text).vector? = none := by
  obtain ⟨e, he, -⟩ := hdown past text
  rw [he]
  rfl

theorem Down.survivors_eq_nil (x : Source) (segments : List String) :
    ∀ past, survivors provider past x segments = [] := by
  induction segments with
  | nil => exact fun _ => rfl
  | cons s rest ih =>
    intro past
    rw [survivors_cons, hdown.vector?_eq_none, ih]
    rfl

theorem Down.passes (ix : Indexer) (texts : List String) :
    ∀ past, ∀ o ∈ answers provider past texts, ix.Passes o := by
  induction texts with
  | nil => exact fun _ _ => nofun
  | cons text rest ih =>
    intro past
    rw [answers, List.forall_mem_cons]
    obtain ⟨e, he, hembedding⟩ := hdown past text
    refine ⟨?_, ih _⟩
    rw [he]
    exact Bool.or_eq_true_iff.2 (.inl hembedding)

end

/-- While the provider is down no segment gets a chunk, and no failure ends the work. -/
theorem embedAll_down (ix : Indexer) (d : Document) (segments : List String) {b : Base} (hdown : Down b.provider) :
    ∃ failed c, runOn (embedAll ix d none 0 [] 0 segments) b = (.ok ([], failed), c) := by
  obtain ⟨⟨chunks, failed⟩, c, hrun⟩ :=
    embedAll_passes 0 [] 0 (hdown.passes ix (segments.map d.source.input) b.asked)
  have hissued : b.issued = b.issued + ([] : List Chunk).length := rfl
  have hchunks : chunks = [] := by
    rw [embedAll_survivors hissued hrun, hdown.survivors_eq_nil]
    rfl
  exact ⟨failed, c, hchunks ▸ hrun⟩

/-- A stored document may lose all its chunks. -/
theorem replace_nothing {s : Store} (now : Time) {id : String} {d : Document}
    (h : (Store.document id s).outcome = .ok d) : ∃ s', Store.replace now id [] s = .ok s' := by
  have htaken : s.HasRoom ([] : List Chunk).length → ∃ s', Store.replace now id [] s = .ok s' :=
    And.left (Store.replace_new now h nofun rfl .nil nofun)
  apply htaken
  cases s with
  | memory m => trivial
  | table d => exact Nat.zero_le _

/-- While the provider is down, a document is emptied unless the store withholds it. -/
theorem reindex_down (ix : Indexer) (id : String) {b : Base} (hdown : Down b.provider) :
    Met b id (runOn (ix.reindex id) b).1 := by
  rw [reindex_outcome, comesTo, document_outcome]
  cases hreading : b.refusals.reading id with
  | true =>
    rw [if_pos rfl, error_bind]
    exact .withheld (.inl hreading) rfl
  | false =>
    rw [if_neg Bool.false_ne_true]
    cases hd : (Store.document id b.store).outcome with
    | error e =>
      rw [error_bind]
      refine .withheld (.inr (.inr ⟨e, hd⟩)) ?_
      rcases document_error hd with rfl | rfl <;> rfl
    | ok d =>
      obtain ⟨failed, c, hembed⟩ := embedAll_down ix d (Segment.segmentText ix.budget d.content) hdown
      rw [ok_bind]
      dsimp only
      rw [hembed, ok_bind, replaceChunks_outcome]
      cases hreplacing : b.refusals.replacing id with
      | true =>
        rw [if_pos rfl, error_bind]
        exact .withheld (.inr (.inl hreplacing)) rfl
      | false =>
        obtain ⟨s, hs⟩ := replace_nothing (Time.ofUnixMicros b.clock) hd
        rw [if_neg Bool.false_ne_true, hs]
        exact .emptied (not_withheld hreading hreplacing hd) rfl

theorem Met.congr {b c : Base} (h : b.Beside c) {id : String} {outcome : Except Fault Reindexed}
    (hmet : Met c id outcome) : Met b id outcome := by
  cases hmet with
  | withheld hwithheld general => exact .withheld ((withheld_congr h id).1 hwithheld) general
  | emptied hgiven chunks => exact .emptied (fun hwithheld => hgiven ((withheld_congr h id).2 hwithheld)) chunks

/-- While the provider is down a document fails only if the store withholds it. -/
theorem Met.error_iff {b : Base} {id : String} {outcome : Except Fault Reindexed} (h : Met b id outcome) :
    (∃ e, outcome = .error e) ↔ Withheld b id := by
  cases h with
  | withheld h => exact ⟨fun _ => h, fun _ => ⟨_, rfl⟩⟩
  | emptied h => exact ⟨nofun, fun hwithheld => absurd hwithheld h⟩

theorem Met.reported {b : Base} {id : String} {outcome : Except Fault Reindexed} (h : Met b id outcome) :
    Reported outcome := by
  cases h with
  | withheld h general =>
    intro e' he
    exact Except.error.inj he ▸ general
  | emptied h => nofun

/-- While the provider is down, every document comes to what it is when the work begins. -/
theorem attempts_down (ix : Indexer) (ids : List String) {b : Base} (hdown : Down b.provider) :
    List.Forall₂ (Met b) ids (ix.attempts ids b).1 := by
  have hstep : ∀ id c, b.Beside c →
      Met b id (runOn (ix.reindex id) c).1 ∧ b.Beside (runOn (ix.reindex id) c).2 := by
    intro id c hc
    have hdown' : Down c.provider := hc.provider ▸ hdown
    exact ⟨(reindex_down ix id hdown').congr hc, hc.trans (ix.reindex_parted id c).beside⟩
  exact (attempts_invariant hstep ids b (.refl b)).1

/-- In a batch, too, each document comes to what it would come to alone. -/
theorem attempt_down (ix : Indexer) {ids : List String} {b : Base} (hdown : Down b.provider) {i : Nat}
    (hi : i < ids.length) : ∃ outcome, (ix.attempts ids b).1[i]? = some outcome ∧ Met b ids[i] outcome := by
  have hlength : i < (ix.attempts ids b).1.length := (length_attempts ix ids b).symm ▸ hi
  exact ⟨_, List.getElem?_eq_getElem hlength,
    (List.forall₂_iff_get.1 (attempts_down ix ids hdown)).2 i hi hlength⟩

theorem reported_down (ix : Indexer) (ids : List String) {b : Base} (hdown : Down b.provider) :
    ∀ outcome ∈ (ix.attempts ids b).1, Reported outcome := by
  intro outcome hmem
  obtain ⟨id, hzip⟩ := exists_of_mem_attempts hmem
  have hmet : Met b id outcome := List.forall₂_zip (attempts_down ix ids hdown) hzip
  exact hmet.reported

/-- A document that the store gives loses its chunks. -/
theorem reindex_emptied (ix : Indexer) {id : String} {b : Base} (hdown : Down b.provider) (hgiven : ¬Withheld b id) :
    (Store.chunksOf id (runOn (ix.reindex id) b).2.store).outcome = .ok [] := by
  have hparted := ix.reindex_parted id b
  have hmet := reindex_down ix id hdown
  generalize (runOn (ix.reindex id) b).1 = outcome at hparted hmet
  cases hmet with
  | withheld h => exact absurd h hgiven
  | @emptied r _ hchunks =>
    obtain ⟨cs, hcs, hpieces⟩ := hparted.settled.stored r rfl
    rw [hchunks] at hpieces
    rw [hcs, List.map_eq_nil_iff.1 hpieces]

/-- A document that is reindexed while the provider is down has no chunks afterwards, whatever comes then. -/
theorem attempts_emptied (ix : Indexer) (ids : List String) {b : Base} (hdown : Down b.provider)
    (hgiven : ∀ id ∈ ids, ¬Withheld b id) {id : String} (hid : id ∈ ids) :
    (Store.chunksOf id (ix.attempts ids b).2.store).outcome = .ok [] := by
  induction ids generalizing b with
  | nil => cases hid
  | cons first rest ih =>
    have hparted := ix.reindex_parted first b
    have hnext : Down (runOn (ix.reindex first) b).2.provider := hparted.beside.provider ▸ hdown
    have hgiven' : ∀ i ∈ rest, ¬Withheld (runOn (ix.reindex first) b).2 i := fun i hi h =>
      hgiven i (List.mem_cons_of_mem first hi) ((withheld_congr hparted.beside i).1 h)
    -- If the document is attempted more than once, the last time counts.
    by_cases hlater : id ∈ rest
    · exact ih hnext hgiven' hlater
    · obtain rfl : id = first := (List.mem_cons.1 hid).resolve_right hlater
      have hothers := ix.attempts_others rest hlater (runOn (ix.reindex id) b).2
      exact hothers.trans (reindex_emptied ix hdown (hgiven id hid))

/-- While the provider is down, documents that the store does not withhold do not fail, and make no chunks. -/
theorem nothing_counted (ix : Indexer) {ids : List String} {b : Base} (hdown : Down b.provider)
    (hgiven : ∀ id ∈ ids, ¬Withheld b id) :
    failures (ids.zip (ix.attempts ids b).1) = [] ∧
      ((successes (ids.zip (ix.attempts ids b).1)).map fun r => r.chunks.length).sum = 0 := by
  have hall : ∀ x ∈ ids.zip (ix.attempts ids b).1, ∃ r, x.2 = .ok r ∧ r.chunks = [] := by
    rintro ⟨id, outcome⟩ hx
    have hmet : Met b id outcome := List.forall₂_zip (attempts_down ix ids hdown) hx
    cases hmet with
    | withheld h => exact absurd h (hgiven id (List.of_mem_zip hx).1)
    | @emptied r _ hchunks => exact ⟨r, rfl, hchunks⟩
  constructor
  · refine List.filterMap_eq_nil_iff.2 fun x hx => ?_
    obtain ⟨r, hr, -⟩ := hall x hx
    rw [hr]
  · apply List.sum_eq_zero
    intro n hn
    obtain ⟨r, hr, rfl⟩ := List.mem_map.1 hn
    obtain ⟨x, hx, hxr⟩ := List.mem_filterMap.1 hr
    obtain ⟨r', hr', hchunks⟩ := hall x hx
    rw [hr'] at hxr
    obtain rfl : r' = r := Option.some.inj hxr
    rw [hchunks]
    rfl

/-! What a batch makes of it. -/

section
variable {most : Int} (hmost : 1 ≤ most) (ix : Indexer) {ids : List String} {b : Base} (hdown : Down b.provider)
include hmost hdown

/-- The first documents have failed in a row while the provider is down if the store withholds all of them. -/
theorem failedInRow_iff (hlong : most ≤ ids.length) :
    FailedInRow most.toNat 0 (ix.attempts ids b).1 most.toNat ↔ ∀ id ∈ ids.take most.toNat, Withheld b id := by
  constructor
  · rintro ⟨-, -, hall⟩ id hid
    obtain ⟨i, hi, rfl⟩ := List.getElem_of_mem hid
    rw [List.length_take] at hi
    rw [List.getElem_take]
    obtain ⟨outcome, houtcome, hmet⟩ := attempt_down ix hdown (show i < ids.length by omega)
    obtain ⟨e, he⟩ := hall i (by omega) (by omega)
    exact hmet.error_iff.1 ⟨e, Option.some.inj (houtcome.symm.trans he)⟩
  · intro hwithheld
    refine ⟨by omega, by omega, fun i hi _ => ?_⟩
    obtain ⟨outcome, houtcome, hmet⟩ := attempt_down ix hdown (show i < ids.length by omega)
    obtain ⟨e, rfl⟩ := hmet.error_iff.2 (hwithheld _ (List.mem_take_iff_getElem.2 ⟨i, by omega, rfl⟩))
    exact ⟨e, houtcome⟩

/-- A store that withholds nothing keeps the batch from failing even once. -/
theorem not_failedInRow (hgiven : ∀ id ∈ ids, ¬Withheld b id) (j : Nat) :
    ¬FailedInRow most.toNat 0 (ix.attempts ids b).1 j := by
  intro h
  have hle : j ≤ ids.length := length_attempts ix ids b ▸ h.le_length (by omega)
  obtain ⟨hj, -, hall⟩ := h
  obtain ⟨outcome, houtcome, hmet⟩ := attempt_down ix hdown (show j - 1 < ids.length by omega)
  obtain ⟨e, he⟩ := hall (j - 1) (by omega) (by omega)
  exact hgiven _ (List.getElem_mem _) (hmet.error_iff.1 ⟨e, Option.some.inj (houtcome.symm.trans he)⟩)

/-- While the provider is down, a batch stops at once if the store withholds the first documents, and not so early
otherwise. -/
theorem stops_at_once_iff (hlong : most ≤ ids.length) :
    (∃ p c, runOn (ix.reindexMany ids most) b = (.ok p, c) ∧ p.status = .failed ∧ p.processed ≤ most) ↔
      ∀ id ∈ ids.take most.toNat, Withheld b id := by
  have hfirst := isFirst_stop? (show 0 < most.toNat by omega) (ix.attempts ids b).1
  obtain ⟨p, c, hrun, hstatus, hcounted⟩ := runOn_reindexMany hmost ix ids b fun o ho =>
    reported_down ix ids hdown o (List.mem_of_mem_take ho)
  rw [← failedInRow_iff hmost ix hdown hlong]
  constructor
  · rintro ⟨p', c', hrun', hfailed, hearly⟩
    cases hrun.symm.trans hrun'
    rw [hcounted.processed] at hearly
    cases hstop : stop? most.toNat 0 (ix.attempts ids b).1 with
    | none =>
      rw [hstop, hfailed] at hstatus
      cases hstatus
    | some j =>
      rw [made, hstop, Option.getD_some] at hearly
      have hrow := (hfirst.eq_some_iff.1 hstop).1
      obtain rfl : j = most.toNat := by
        have := hrow.2.1
        omega
      exact hrow
  · intro hrow
    have hstop := hfirst.eq_some_iff.2 ⟨hrow, fun j hj => Nat.zero_add j ▸ hj.2.1⟩
    refine ⟨p, c, hrun, ?_, ?_⟩
    · rw [hstatus, hstop]
      rfl
    · rw [hcounted.processed, made, hstop, Option.getD_some, Int.toNat_of_nonneg (by omega)]

/-- While the provider is down, a batch over documents that the store does not withhold goes through all of them,
counts none as failed, and leaves them without chunks. -/
theorem empties_unnoticed (hgiven : ∀ id ∈ ids, ¬Withheld b id) :
    ∃ p c, runOn (ix.reindexMany ids most) b = (.ok p, c) ∧ p.status = .completed ∧ p.processed = ids.length ∧
      p.failed = 0 ∧ p.chunks = 0 ∧ ∀ id ∈ ids, (Store.chunksOf id c.store).outcome = .ok [] := by
  have hstop := (isFirst_stop? (show 0 < most.toNat by omega) _).eq_none (not_failedInRow hmost ix hdown hgiven)
  obtain ⟨p, c, hrun, hstatus, hcounted⟩ := runOn_reindexMany hmost ix ids b fun o ho =>
    reported_down ix ids hdown o (List.mem_of_mem_take ho)
  rw [made, hstop, Option.getD_none, length_attempts] at hcounted
  rw [hstop] at hstatus
  obtain ⟨hfailures, hchunks⟩ := nothing_counted ix hdown hgiven
  have hall : (ids.zip (ix.attempts ids b).1).take ids.length = ids.zip (ix.attempts ids b).1 := by
    rw [List.take_of_length_le]
    rw [List.length_zip]
    exact Nat.min_le_left _ _
  have haccounts := hcounted.accounts
  rw [hall] at haccounts
  refine ⟨p, c, hrun, hstatus, hcounted.processed, ?_, ?_, fun id hid => ?_⟩
  · rw [haccounts.failed, hfailures]
    rfl
  · rw [haccounts.chunks, hchunks]
    rfl
  · have hbase := hcounted.base
    rw [List.take_length] at hbase
    rw [hbase.store]
    exact attempts_emptied ix ids hdown hgiven hid

end

/-- While the provider is down, a batch stops at once exactly if the store withholds as many documents at its
beginning as may fail in a row. Where the store withholds none, nothing is noticed: all documents are done, and lose
their chunks. -/
theorem outage_detected_iff {most : Int} (hmost : 1 ≤ most) (ix : Indexer) {ids : List String}
    (hlong : most ≤ ids.length) {b : Base} (hdown : Down b.provider) :
    ((∃ p c, runOn (ix.reindexMany ids most) b = (.ok p, c) ∧ p.status = .failed ∧ p.processed ≤ most) ↔
        ∀ id ∈ ids.take most.toNat, Withheld b id) ∧
      ((∀ id ∈ ids, ¬Withheld b id) →
        ∃ p c, runOn (ix.reindexMany ids most) b = (.ok p, c) ∧ p.status = .completed ∧
          p.processed = ids.length ∧
          p.failed = 0 ∧ p.chunks = 0 ∧ ∀ id ∈ ids, (Store.chunksOf id c.store).outcome = .ok []) :=
  ⟨stops_at_once_iff hmost ix hdown hlong, empties_unnoticed hmost ix hdown⟩

/-- Three notes of which the first has a chunk, and a provider that is down. -/
def outage : Base where
  store :=
    let put (id : String) (s : Store) :=
      (s.run (Time.ofUnixMicros 0) (.put { Store.note with id := id, title := id })).2
    ((put "c" (put "b" (put "a" (.table ⟨unfiledPath, true, {}⟩)))).run (Time.ofUnixMicros 0)
      (.replace "a" [Store.noteChunk 0])).2
  provider := fun _ _ => .fails (.embedding .malformed)

def outageNotes : List String := ["a", "b", "c"]

theorem down_outage : Down outage.provider := fun _ _ => ⟨_, rfl, rfl⟩

/-- Three notes, of which two may fail in a row. -/
theorem outage_detected_iff_notes :
    (1 : Int) ≤ 2 ∧ (2 : Int) ≤ outageNotes.length ∧ Down outage.provider ∧
      ((∃ p c, runOn (({} : Indexer).reindexMany outageNotes 2) outage = (.ok p, c) ∧ p.status = .failed ∧
          p.processed ≤ 2) ↔ ∀ id ∈ outageNotes.take (Int.toNat 2), Withheld outage id) ∧
      ((∀ id ∈ outageNotes, ¬Withheld outage id) →
        ∃ p c, runOn (({} : Indexer).reindexMany outageNotes 2) outage = (.ok p, c) ∧ p.status = .completed ∧
          p.processed = outageNotes.length ∧ p.failed = 0 ∧ p.chunks = 0 ∧
          ∀ id ∈ outageNotes, (Store.chunksOf id c.store).outcome = .ok []) :=
  ⟨by decide, by decide, down_outage, outage_detected_iff (by decide) {} (by decide) down_outage⟩

/-- All embeddings of three stored documents fail, and two documents may fail in a row; the batch goes through all three
and does not fail, and the chunk that was there is lost. -/
theorem outage_empties_notes :
    Down outage.provider ∧
      (∀ id ∈ outageNotes, ∃ d, (Store.document id outage.store).outcome = .ok d ∧
        Text.isBlankText d.content = false) ∧
      outage.store.chunkIds = ["p"] ∧
      (¬∃ p c, runOn (({} : Indexer).reindexMany outageNotes 2) outage = (.ok p, c) ∧ p.status = .failed ∧
        p.processed ≤ 2) ∧
      ∃ p c, runOn (({} : Indexer).reindexMany outageNotes 2) outage = (.ok p, c) ∧ p.status = .completed ∧
        p.processed = 3 ∧ (Store.chunksOf "a" c.store).outcome = .ok [] := by
  have hstored : ∀ id ∈ outageNotes,
      ∃ d, (Store.document id outage.store).outcome = .ok d ∧ Text.isBlankText d.content = false := by
    simp only [outageNotes, List.forall_mem_cons]
    exact ⟨⟨_, rfl, by decide⟩, ⟨_, rfl, by decide⟩, ⟨_, rfl, by decide⟩, nofun⟩
  have hgiven : ∀ id ∈ outageNotes, ¬Withheld outage id := by
    intro id hid
    obtain ⟨d, hd, -⟩ := hstored id hid
    exact not_withheld rfl rfl hd
  have hmost : (1 : Int) ≤ 2 := by decide
  have hlong : (2 : Int) ≤ outageNotes.length := by decide
  have hdetected := stops_at_once_iff hmost {} down_outage hlong
  obtain ⟨p, c, hrun, hstatus, hprocessed, -, -, hempty⟩ := empties_unnoticed hmost {} down_outage hgiven
  refine ⟨down_outage, hstored, by decide, fun h => ?_, p, c, hrun, hstatus, hprocessed, hempty "a" (by decide)⟩
  exact hgiven "a" (by decide) (hdetected.1 h "a" (by decide))

end Compendium.Indexer
