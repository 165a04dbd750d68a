import Compendium.Proofs.Index.Apart
import Compendium.Proofs.Index.Failure
import Compendium.Proofs.Meter

/-!
Rebuilding the index. Every document is attempted, whatever becomes of the others; what the rebuild reports and
measures is the sum of what its documents come to, each as if it were reindexed alone, and so is what it leaves of
them. The order of the documents plays no part in it.
-/
namespace Compendium

open Compendium.Action (runOn runOn_bind runOn_bind_ok)

/-! What is counted of attempts with the same gist. -/

/-- Two outcomes that differ in the ids and times of chunks at most. -/
def SameGist (o o' : Except Fault Reindexed) : Prop := o.map Reindexed.gist = o'.map Reindexed.gist

theorem SameGist.error {o o' : Except Fault Reindexed} (h : SameGist o o') {e : Fault} (he : o' = .error e) :
    o = .error e := by
  subst he
  cases o with
  | error e' => exact congrArg Except.error (Except.error.inj h)
  | ok r => cases h

theorem SameGist.ok {o o' : Except Fault Reindexed} (h : SameGist o o') {r' : Reindexed} (hr : o' = .ok r') :
    ∃ r, o = .ok r ∧ r.gist = r'.gist := by
  subst hr
  cases o with
  | error e => cases h
  | ok r => exact ⟨r, rfl, Except.ok.inj h⟩

section
variable {ids : List String} {outcomes : List (Except Fault Reindexed)} {alone : String → Except Fault Reindexed}
  (h : List.Forall₂ (fun id o => SameGist o (alone id)) ids outcomes)
include h

/-- The same documents fail for the same reasons, and the others come to the same. -/
theorem failures_and_gists :
    failures (ids.zip outcomes) = failures (ids.map fun id => (id, alone id)) ∧
      (successes (ids.zip outcomes)).map Reindexed.gist =
        (successes (ids.map fun id => (id, alone id))).map Reindexed.gist := by
  induction h with
  | nil => exact ⟨rfl, rfl⟩
  | @cons id o rest outcomes hfirst _ ih =>
    obtain ⟨hfailures, hgists⟩ := ih
    rw [List.zip_cons_cons, List.map_cons]
    generalize alone id = o' at hfirst
    cases o' with
    | error e =>
      rw [hfirst.error rfl]
      exact ⟨congrArg ((id, e) :: ·) hfailures, hgists⟩
    | ok r' =>
      obtain ⟨r, rfl, hgist⟩ := hfirst.ok rfl
      exact ⟨hfailures, congrArg₂ List.cons hgist hgists⟩

theorem Progress.Accounts.same {p : Progress} (hp : p.Accounts (ids.zip outcomes)) :
    p.Accounts (ids.map fun id => (id, alone id)) := by
  obtain ⟨hfailures, hgists⟩ := failures_and_gists h
  have hlengths := congrArg (List.map fun g => g.1.length) hgists
  have hfailed := congrArg (List.map Prod.snd) hgists
  simp only [List.map_map, Function.comp_def, Reindexed.gist, List.length_map] at hlengths hfailed
  constructor
  · rw [hp.processed, List.length_zip, List.length_map, ← h.length_eq, Nat.min_self]
  · rw [hp.failed, hfailures]
  · rw [hp.errors, hfailures]
  · rw [hp.chunks, hlengths]
  · rw [hp.skipped]
    exact congrArg (fun ns : List Nat => (ns.sum : Int)) hfailed

end

namespace Indexer

def alone (ix : Indexer) (b : Base) (id : String) : Except Fault Reindexed := (runOn (ix.reindex id) b).1

/-- A provider that makes the same of a text every time: a vector, or a failure that does not stop the program. -/
structure Orderly (provider : Provider) : Prop where
  constant : Constant provider
  answers : ∀ past text, (∃ v, provider past text = .vector v) ∨
    ∃ e, provider past text = .fails e ∧ e.isA .general = true

theorem Setback.general {ix : Indexer} {left : Option Float} {id : String} {b : Base} {e : Fault}
    (h : Setback ix left id b e) (horderly : Orderly b.provider) : e.isA .general = true := by
  cases h with
  | refused => rfl
  | unread h => rcases document_error h with rfl | rfl <;> rfl
  | @ended d s past _ _ _ h =>
    rcases horderly.answers past (d.source.input s) with ⟨v, hv⟩ | ⟨f, hf, hgeneral⟩
    · rw [hv] at h
      cases h
    · rw [hf] at h
      cases h
      exact hgeneral
  | full => rfl
  | rejected _ h => cases replace_error h <;> rfl

/-- An orderly provider causes no failure that would stop a rebuild. -/
theorem reindex_reported (ix : Indexer) (id : String) {b : Base} (horderly : Orderly b.provider) :
    Reported (runOn (ix.reindex id) b).1 := by
  intro e he
  obtain ⟨-, hcause⟩ := reindex_error (Prod.ext he rfl : runOn (ix.reindex id) b = (.error e, _))
  cases hcause with
  | setback _ hsetback => exact hsetback.general horderly
  | late limited => cases limited

section
variable (ix : Indexer) {b : Base} (hfresh : b.Fresh) (horderly : Orderly b.provider)
include hfresh horderly

/-- Among others a document comes to the same as alone. -/
theorem attempts_alone (ids : List String) :
    List.Forall₂ (fun id o => SameGist o (ix.alone b id) ∧ Reported o) ids (ix.attempts ids b).1 := by
  have hstep : ∀ id c, b.Beside c ∧ c.Fresh →
      (SameGist (runOn (ix.reindex id) c).1 (ix.alone b id) ∧ Reported (runOn (ix.reindex id) c).1) ∧
        b.Beside (runOn (ix.reindex id) c).2 ∧ (runOn (ix.reindex id) c).2.Fresh := by
    rintro id c ⟨hbeside, hc⟩
    have hparted := ix.reindex_parted id c
    have horderly' : Orderly c.provider := hbeside.provider ▸ horderly
    exact ⟨⟨reindex_congr ix id hbeside horderly.constant hfresh hc, reindex_reported ix id horderly'⟩,
      hbeside.trans hparted.beside, hparted.fresh hc⟩
  exact (attempts_invariant hstep ids b ⟨.refl b, hfresh⟩).1

end

theorem Settled.same {id : String} {o o' : Except Fault Reindexed} {b c : Base} (h : Settled id o b c)
    (hgist : SameGist o o') : Settled id o' b c where
  stored r' hr' := by
    obtain ⟨r, hr, hsame⟩ := hgist.ok hr'
    obtain ⟨cs, hcs, hpieces⟩ := h.stored r hr
    exact ⟨cs, hcs, hpieces.trans (congrArg Prod.fst hsame)⟩
  kept e he := h.kept e (hgist.error he)

/-- Of documents that are attempted once each, each is left with what it came to. -/
theorem attempts_settled (ix : Indexer) (ids : List String) (hdistinct : ids.Nodup) (b : Base) :
    ∀ id outcome, (id, outcome) ∈ ids.zip (ix.attempts ids b).1 → Settled id outcome b (ix.attempts ids b).2 := by
  induction ids generalizing b with
  | nil => exact fun _ _ => nofun
  | cons first rest ih =>
    rw [List.nodup_cons] at hdistinct
    intro id outcome hmem
    have hparted := ix.reindex_parted first b
    rw [attempts, List.zip_cons_cons, List.mem_cons] at hmem
    rcases hmem with heq | hmem
    · -- The documents behind it are other ones, and leave its chunks alone.
      obtain ⟨rfl, rfl⟩ := Prod.mk.inj heq
      exact hparted.settled.congr rfl (ix.attempts_others rest hdistinct.1 _)
    · have hid : id ≠ first := fun h => hdistinct.1 (h ▸ (List.of_mem_zip hmem).1)
      exact (ih hdistinct.2 _ id outcome hmem).congr (hparted.others id hid) rfl

/-- What the attempts that succeed have stored and skipped is measured, unless the meter is silent. -/
theorem attempts_measured (ix : Indexer) (ids : List String) (b : Base) (hsilent : b.meter.silent = false) :
    Meter.Gained "vulnkb_index_chunks_total"
        (((successes (ids.zip (ix.attempts ids b).1)).map fun r => r.chunks.length).sum : Nat)
        b.meter (ix.attempts ids b).2.meter ∧
      Meter.Gained "vulnkb_embedding_failures_total"
        (((successes (ids.zip (ix.attempts ids b).1)).map Reindexed.failed).sum : Nat)
        b.meter (ix.attempts ids b).2.meter := by
  induction ids generalizing b with
  | nil => exact ⟨.refl _ _, .refl _ _⟩
  | cons id rest ih =>
    have hmeter := ix.reindex_meter id b
    rcases hfirst : runOn (ix.reindex id) b with ⟨outcome, c⟩
    rw [hfirst] at hmeter
    rw [attempts, hfirst, List.zip_cons_cons]
    cases outcome with
    | error e =>
      have hsame : c.meter = b.meter := hmeter
      exact hsame ▸ ih c (hsame ▸ hsilent)
    | ok r =>
      have hindexed : c.meter = b.meter.indexed r.chunks.length r.failed := hmeter
      have hsilent' : c.meter.silent = false := by rw [hindexed, Meter.silent_indexed, hsilent]
      obtain ⟨hchunks, hskipped⟩ := Meter.gained_indexed r.chunks.length r.failed hsilent
      rw [← hindexed] at hchunks hskipped
      obtain ⟨hrest, hrest'⟩ := ih c hsilent'
      exact ⟨hchunks.trans hrest, hskipped.trans hrest'⟩

def rebuildIn (ix : Indexer) (ids : List String) : Action (Progress × List Progress) := do
  let start : Progress := { total := ids.length, status := .running, started := some (← seconds) }
  Action.log .info "indexer" "rebuild_all" "Starting index rebuild" [("documents", .nat ids.length)]
  let updates ← ix.rebuildEach start ids
  let p := { updates.getLastD start with status := .completed, ended := some (← seconds) }
  Action.log .info "indexer" "rebuild_all" "Index rebuild completed"
    [("documents", .int p.processed), ("failed", .int p.failed), ("chunks", .int p.chunks),
      ("skipped_chunks", .int p.skipped),
      ("seconds", .number (rounded ((p.duration (← seconds)).getD (.decimal 0.0))))]
  return (p, updates)

/-- A rebuild takes the documents in the order in which the store tells them. -/
theorem rebuild_eq (ix : Indexer) : ix.rebuild = Action.readStore Store.ids >>= ix.rebuildIn := rfl

/-! The run. -/

/-- One document is counted, whatever came of it; that it failed is logged. -/
theorem runOn_rebuildOne (ix : Indexer) (p : Progress) {id : String} {b c : Base} {outcome : Except Fault Reindexed}
    (hrun : runOn (ix.reindex id) b = (outcome, c)) (hreported : Reported outcome) :
    ∃ d, runOn (ix.rebuildOne p id) b = (.ok (p.counting (id, outcome)), d) ∧ c.Twin d := by
  rw [rebuildOne, runOn_bind, Action.runOn_attempt, hrun]
  cases outcome with
  | ok r => exact ⟨c, rfl, .refl c⟩
  | error e =>
    have hgeneral := hreported e rfl
    simp only [hgeneral, Bool.not_true, Bool.false_eq_true, if_false, runOn_bind, Action.runOn_log]
    exact ⟨_, rfl, c.twin_noting _⟩

/-- Where each failure is reported, a rebuild goes through all documents. -/
theorem runOn_rebuildEach (ix : Indexer) (ids : List String) :
    ∀ (p : Progress) (b : Base), (∀ o ∈ (ix.attempts ids b).1, Reported o) →
      ∃ c, runOn (ix.rebuildEach p ids) b = (.ok (p.course (ids.zip (ix.attempts ids b).1)), c) ∧
        (ix.attempts ids b).2.Twin c := by
  induction ids with
  | nil => exact fun p b _ => ⟨b, rfl, .refl b⟩
  | cons id rest ih =>
    intro p b hreported
    rcases hfirst : runOn (ix.reindex id) b with ⟨outcome, c⟩
    have hattempts : ix.attempts (id :: rest) b = (outcome :: (ix.attempts rest c).1, (ix.attempts rest c).2) := by
      rw [attempts, hfirst]
    rw [hattempts, List.forall_mem_cons] at hreported
    obtain ⟨d, hone, htwin⟩ := runOn_rebuildOne ix p hfirst hreported.1
    -- What was logged of this document makes no difference to those behind it.
    obtain ⟨hsame, hlater⟩ := ix.attempts_twin rest htwin
    obtain ⟨e, hrun, hlast⟩ := ih (p.counting (id, outcome)) d (hsame ▸ hreported.2)
    rw [hsame] at hrun
    rw [hattempts]
    exact ⟨e, runOn_bind_ok.2 ⟨_, d, hone, runOn_bind_ok.2 ⟨_, e, hrun, rfl⟩⟩, hlater.trans hlast⟩

/-- What a rebuild over documents in some order leaves: it has completed, what it counts and measures are the sums over
the documents, and of each document the store holds what came of it. -/
structure Rebuilt (ix : Indexer) (b : Base) (ids : List String) (p : Progress) (updates : List Progress) (c : Base) :
    Prop where
  completed : p.status = .completed
  total : p.total = ids.length
  processed : p.processed = ids.length
  alike : List.Forall₂ (fun id o => SameGist o (ix.alone b id)) ids (ix.attempts ids b).1
  accounts : p.Accounts (ids.map fun id => (id, ix.alone b id))
  updates : updates.map Progress.processed = (List.range ids.length).map fun i => ((i + 1 : Nat) : Int)
  measured : b.meter.silent = false → Meter.Gained "vulnkb_index_chunks_total" p.chunks b.meter c.meter ∧
    Meter.Gained "vulnkb_embedding_failures_total" p.skipped b.meter c.meter
  settled : ∀ id ∈ ids, Settled id (ix.alone b id) b c
  others : ∀ id ∉ ids, (Store.chunksOf id c.store).outcome = (Store.chunksOf id b.store).outcome

structure SameIndex (p p' : Progress) (c c' : Base) : Prop where
  total : p'.total = p.total
  processed : p'.processed = p.processed
  failed : p'.failed = p.failed
  chunks : p'.chunks = p.chunks
  skipped : p'.skipped = p.skipped
  errors : p'.errors.Perm p.errors
  pieces : ∀ id, (Store.chunksOf id c'.store).outcome.map (List.map Chunk.piece) =
    (Store.chunksOf id c.store).outcome.map (List.map Chunk.piece)

/-- What a rebuild counts are sums over the documents, and what it leaves of one does not depend on the others. -/
theorem Rebuilt.agree {ix : Indexer} {b : Base} {ids order : List String} {p p' : Progress}
    {updates updates' : List Progress} {c c' : Base} (h : Rebuilt ix b ids p updates c)
    (h' : Rebuilt ix b order p' updates' c') (hperm : order.Perm ids) : SameIndex p p' c c' := by
  have hattempts := hperm.map fun id => (id, ix.alone b id)
  have hfailures : (failures (order.map fun id => (id, ix.alone b id))).Perm
      (failures (ids.map fun id => (id, ix.alone b id))) := hattempts.filterMap _
  have hsuccesses : (successes (order.map fun id => (id, ix.alone b id))).Perm
      (successes (ids.map fun id => (id, ix.alone b id))) := hattempts.filterMap _
  constructor
  · rw [h'.total, h.total, hperm.length_eq]
  · rw [h'.accounts.processed, h.accounts.processed, hattempts.length_eq]
  · rw [h'.accounts.failed, h.accounts.failed, hfailures.length_eq]
  · rw [h'.accounts.chunks, h.accounts.chunks, (hsuccesses.map _).sum_eq]
  · rw [h'.accounts.skipped, h.accounts.skipped, (hsuccesses.map _).sum_eq]
  · rw [h'.accounts.errors, h.accounts.errors]
    exact hfailures.map _
  · intro id
    by_cases hid : id ∈ ids
    · have hsettled := h.settled id hid
      have hsettled' := h'.settled id (hperm.mem_iff.2 hid)
      cases houtcome : ix.alone b id with
      | ok r =>
        obtain ⟨cs, hcs, hpieces⟩ := hsettled.stored r houtcome
        obtain ⟨cs', hcs', hpieces'⟩ := hsettled'.stored r houtcome
        rw [hcs, hcs']
        exact congrArg Except.ok (hpieces'.trans hpieces.symm)
      | error e => rw [hsettled.kept e houtcome, hsettled'.kept e houtcome]
    · rw [h.others id hid, h'.others id (fun hn => hid (hperm.mem_iff.1 hn))]

theorem runOn_rebuildIn (ix : Indexer) (ids : List String) (b : Base)
    (hreported : ∀ o ∈ (ix.attempts ids b).1, Reported o) :
    ∃ started ended c, runOn (ix.rebuildIn ids) b =
        (.ok ({ (ids.zip (ix.attempts ids b).1).foldl Progress.counting started with
                status := .completed, ended := ended },
              started.course (ids.zip (ix.attempts ids b).1)), c) ∧
      started.total = ids.length ∧ started.Accounts [] ∧ (ix.attempts ids b).2.Twin c := by
  obtain ⟨t, hstart⟩ := runOn_seconds b
  let start : Progress := { total := ids.length, status := .running, started := some t }
  obtain ⟨es, hlog⟩ : ∃ es, runOn (Action.log .info "indexer" "rebuild_all" "Starting index rebuild"
      [("documents", .nat ids.length)]) b = (.ok (), b.noting es) := ⟨_, Action.runOn_log ..⟩
  obtain ⟨hsame, hlater⟩ := ix.attempts_twin ids (b.twin_noting es)
  rw [← hsame] at hreported ⊢
  obtain ⟨c, hrun, hc⟩ := runOn_rebuildEach ix ids start (b.noting es) hreported
  obtain ⟨t', hend⟩ := runOn_seconds c
  obtain ⟨es', hall⟩ : ∃ es', runOn (ix.rebuildIn ids) b =
      (.ok ({ (start.course (ids.zip (ix.attempts ids (b.noting es)).1)).getLastD start with
                status := .completed, ended := some t' },
            start.course (ids.zip (ix.attempts ids (b.noting es)).1)), c.noting es') :=
    ⟨_, runOn_bind_ok.2 ⟨t, b, hstart, runOn_bind_ok.2 ⟨(), _, hlog, runOn_bind_ok.2 ⟨_, c, hrun,
      runOn_bind_ok.2 ⟨t', c, hend, runOn_bind_ok.2 ⟨t', c, hend,
        runOn_bind_ok.2 ⟨(), _, Action.runOn_log .., rfl⟩⟩⟩⟩⟩⟩⟩
  rw [Progress.getLastD_course] at hall
  exact ⟨start, some t', _, hall, rfl, ⟨rfl, rfl, rfl, rfl, rfl⟩,
    hlater.trans (hc.trans (c.twin_noting _))⟩

/-- Each document is attempted among others, where it comes to what it does alone; so the sums are those. -/
theorem rebuildIn_rebuilt (ix : Indexer) {ids : List String} (hdistinct : ids.Nodup) {b : Base} (hfresh : b.Fresh)
    (horderly : Orderly b.provider) {b' : Base} (htwin : b.Twin b') :
    ∃ p updates c, runOn (ix.rebuildIn ids) b' = (.ok (p, updates), c) ∧ Rebuilt ix b ids p updates c := by
  have hruns := attempts_alone ix hfresh horderly ids
  have halike : List.Forall₂ (fun id o => SameGist o (ix.alone b id)) ids (ix.attempts ids b).1 :=
    hruns.imp fun _ _ h => h.1
  have hreported : ∀ o ∈ (ix.attempts ids b).1, Reported o := by
    intro o ho
    obtain ⟨id, hmem⟩ := exists_of_mem_attempts ho
    exact (List.forall₂_zip hruns hmem).2
  obtain ⟨hsame, hlater⟩ := ix.attempts_twin ids htwin
  obtain ⟨started, ended, c, hrun, htotal, hstarted, hc⟩ := runOn_rebuildIn ix ids b' (hsame ▸ hreported)
  rw [hsame] at hrun
  have hlast := hlater.trans hc
  have hcounts := Progress.accounts_foldl hstarted (ids.zip (ix.attempts ids b).1)
  have hlength : (ids.zip (ix.attempts ids b).1).length = ids.length := by
    rw [List.length_zip, length_attempts, Nat.min_self]
  refine ⟨_, _, c, hrun, ?_⟩
  constructor
  · rfl
  · exact (Progress.foldl_counting_total started _).trans htotal
  · exact hcounts.processed.trans (congrArg Int.ofNat hlength)
  · exact halike
  · refine Progress.Accounts.same halike ?_
    exact ⟨hcounts.processed, hcounts.failed, hcounts.errors, hcounts.chunks, hcounts.skipped⟩
  · rw [Progress.processed_course, hlength]
    refine List.map_congr_left fun i _ => ?_
    rw [hstarted.processed]
    exact Int.zero_add _
  · intro hsilent
    obtain ⟨hchunks, hskipped⟩ := attempts_measured ix ids b hsilent
    rw [← hcounts.chunks, ← hlast.meter] at hchunks
    rw [← hcounts.skipped, ← hlast.meter] at hskipped
    exact ⟨hchunks, hskipped⟩
  · intro id hid
    obtain ⟨o, ho⟩ := ix.exists_attempt hid b
    have hsettled := attempts_settled ix ids hdistinct b id o ho
    exact (hsettled.same (List.forall₂_zip halike ho)).congr rfl (by rw [hlast.store])
  · intro id hid
    rw [hlast.store]
    exact ix.attempts_others ids hid b

/-- With a provider that makes the same of a text every time, a rebuild completes whatever its documents come to. Each
document comes to what it does alone: the rebuild counts and measures the sums of this, reports one document more each
time, and leaves of a document its new chunks, or those that it had if it failed. All this is the same for every order
of the documents, save the order of the errors and the ids and times of chunks. -/
theorem rebuild_accounts (ix : Indexer) {ids : List String} {b : Base} (hids : (Store.ids b.store).outcome = .ok ids)
    (hdistinct : ids.Nodup) (hfresh : b.Fresh) (horderly : Orderly b.provider) :
    ∃ p updates c, runOn ix.rebuild b = (.ok (p, updates), c) ∧ Rebuilt ix b ids p updates c ∧
      ∀ order : List String, order.Perm ids →
        ∃ p' updates' c', runOn (ix.rebuildIn order) b = (.ok (p', updates'), c') ∧
        Rebuilt ix b order p' updates' c' ∧ SameIndex p p' c c' := by
  have hread := Action.runOn_readStore Store.ids b
  rw [hids] at hread
  obtain ⟨p, updates, c, hrun, hrebuilt⟩ := rebuildIn_rebuilt ix hdistinct hfresh horderly (b.twin_noting _)
  refine ⟨p, updates, c, ?_, hrebuilt, fun order hperm => ?_⟩
  · rw [rebuild_eq]
    exact runOn_bind_ok.2 ⟨ids, _, hread, hrun⟩
  · have hdistinct' := hperm.nodup_iff.2 hdistinct
    obtain ⟨p', updates', c', hrun', hrebuilt'⟩ := rebuildIn_rebuilt ix hdistinct' hfresh horderly (.refl b)
    exact ⟨p', updates', c', hrun', hrebuilt', hrebuilt.agree hrebuilt' hperm⟩

/-- A provider that breaks down at one text, fails at another one, and makes a vector for the others. -/
def graded : Provider := fun _ text =>
  if text.toList.getLast? = some 'b' then .fails (.raised .value "broken")
  else if text.toList.getLast? = some 'c' then .fails (.embedding .malformed)
  else .vector [⟨1⟩]

/-- Three notes, the second with a chunk, of which the provider makes one each of these ways. -/
def mixed : Base where
  store :=
    let put (id : String) (s : Store) :=
      (s.run (Time.ofUnixMicros 0) (.put { Store.note with id := id, title := id, content := id })).2
    ((put "c" (put "b" (put "a" .empty))).run (Time.ofUnixMicros 0)
      (.replace "b" [{ Store.noteChunk 0 with document := "b" }])).2
  provider := graded

theorem fresh_mixed : mixed.Fresh := by
  intro n _ hmem
  have hids : mixed.store.chunkIds = ["p"] := by decide +kernel
  have hid : Action.idText n = "p" := List.mem_singleton.1 (hids ▸ hmem)
  have hmark : (Action.idText n).toList.head? = some 'i' := by simp [Action.idText]
  rw [hid] at hmark
  exact absurd hmark (by decide)

theorem orderly_graded : Orderly graded where
  constant _ _ _ := rfl
  answers _ text := by
    simp only [graded]
    split
    · exact .inr ⟨_, rfl, rfl⟩
    · split
      · exact .inr ⟨_, rfl, rfl⟩
      · exact .inl ⟨_, rfl⟩

/-- One note breaks down, one is indexed, and one loses a segment, in whatever order. -/
theorem rebuild_accounts_mixed :
    (Store.ids mixed.store).outcome = .ok ["a", "b", "c"] ∧ ["a", "b", "c"].Nodup ∧ mixed.Fresh ∧
      Orderly graded ∧
      ∃ p updates c, runOn ({} : Indexer).rebuild mixed = (.ok (p, updates), c) ∧
        Rebuilt {} mixed ["a", "b", "c"] p updates c ∧
        ∀ order : List String, order.Perm ["a", "b", "c"] →
          ∃ p' updates' c', runOn (({} : Indexer).rebuildIn order) mixed = (.ok (p', updates'), c') ∧
            Rebuilt {} mixed order p' updates' c' ∧ SameIndex p p' c c' := by
  have hids : (Store.ids mixed.store).outcome = .ok ["a", "b", "c"] := rfl
  have hdistinct : ["a", "b", "c"].Nodup := by decide
  exact ⟨hids, hdistinct, fresh_mixed, orderly_graded,
    rebuild_accounts {} hids hdistinct fresh_mixed orderly_graded⟩

end Indexer

end Compendium
