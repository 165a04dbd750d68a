import Compendium.Index.Rebuild
import Compendium.Proofs.Index.Reindex

/-!
What the two ways of reindexing many documents have in common. A batch that
ends without a failed document and without a skipped segment has swept over
all of its documents; a failure is counted and never taken back.
-/
namespace Compendium

open Compendium.Action (runOn runOn_bind runOn_bind_ok Leads Frame)

namespace Indexer

/-- Bases whose stores hold the same documents, and the same chunks of all but some documents. -/
structure Kept (ids : Set String) (b b' : Base) : Prop extends Base.Steady b b' where
  sound : b'.store.Sound
  sources : b'.store.sources = b.store.sources
  others : ∀ id ∉ ids, b'.store.piecesOf id = b.store.piecesOf id
  numbered : Numbered b → Numbered b'
  room : ∀ n, b.store.HasRoom n → b'.store.HasRoom n

theorem Kept.refl (ids : Set String) {b : Base} (hs : b.store.Sound) : Kept ids b b :=
  ⟨Base.Steady.refl b, hs, rfl, fun _ _ => rfl, id, fun _ h => h⟩

theorem Kept.trans {ids : Set String} {b c d : Base} (h : Kept ids b c) (h' : Kept ids c d) : Kept ids b d where
  toSteady := h.toSteady.trans h'.toSteady
  sound := h'.sound
  sources := h'.sources.trans h.sources
  others id hi := (h'.others id hi).trans (h.others id hi)
  numbered hn := h'.numbered (h.numbered hn)
  room n hn := h'.room n (h.room n hn)

theorem Kept.mono {ids ids' : Set String} {b b' : Base} (h : Kept ids b b') (hi : ∀ id ∈ ids, id ∈ ids') :
    Kept ids' b b' :=
  { h with others := fun id hn => h.others id fun hm => hn (hi id hm) }

theorem Untouched.numbered {b b' : Base} (h : Untouched b b') (hn : Numbered b) : Numbered b' := by
  intro i hi
  obtain ⟨n, hle, rfl⟩ := hn i (h.store ▸ hi)
  exact ⟨n, Nat.le_trans hle h.issued, rfl⟩

theorem Untouched.kept {b b' : Base} (h : Untouched b b') (hs : b.store.Sound) (ids : Set String) : Kept ids b b' where
  toSteady := h.toSteady
  sound := h.store ▸ hs
  sources := by rw [h.store]
  others id _ := by rw [h.store]
  numbered := h.numbered
  room n hn := h.store ▸ hn

theorem Done.kept {ix : Indexer} {d : Document} {b b' : Base} {r : Reindexed} (h : Done ix d b r b')
    (hs : b.store.Sound) : Kept {r.document} b b' := by
  obtain ⟨now, hr⟩ := h.replaced
  have hrep := Store.replace_outcome hs hr
  refine ⟨h.toSteady, hrep.sound, hrep.sources, fun id hi => hrep.others id hi, fun hn i hi => ?_,
    hrep.room⟩
  rcases hrep.ids i hi with hi | hi
  · obtain ⟨n, hle, rfl⟩ := hn i hi
    exact ⟨n, Nat.le_trans hle h.issued, rfl⟩
  · rw [h.made.ids] at hi
    obtain ⟨n, hr, rfl⟩ := List.mem_map.1 hi
    have := List.mem_range'_1.1 hr
    exact ⟨n, by rw [h.given]; omega, rfl⟩

def Keeps (ids : Set String) (b b' : Base) : Prop := b.store.Sound → Kept ids b b'

theorem frame_keeps (ids : Set String) : Frame (Keeps ids) where
  refl _ hs := Kept.refl ids hs
  trans h h' hs := (h hs).trans (h' (h hs).sound)
  noting b es hs := (frame_untouched.noting b es).kept hs ids

/-- A reindexing leaves the chunks of all other documents alone. -/
theorem keeps_reindex (ix : Indexer) {id : String} {ids : Set String} (hi : id ∈ ids) :
    Leads (Keeps ids) (ix.reindex id) := fun b hs => by
  rcases runOn_reindex (rfl : runOn (ix.reindex id) b = (_, _)) with ⟨e, -, hu⟩ | ⟨r, d, -, rfl, -, hd⟩
  · exact hu.kept hs ids
  · exact (hd.kept hs).mono fun _ he => he ▸ hi

/-! What reindexing one document leaves as it is, a batch leaves as it is, even if it stops halfway. -/

section
variable {R : Base → Base → Prop}

theorem leads_seconds (hR : Frame R) : Leads R seconds :=
  Action.leads_bind hR (Action.leads_get hR) fun _ => Action.leads_pure hR _

theorem leads_rebuildOne (hR : Frame R) (ix : Indexer) (p : Progress) {id : String} (h : Leads R (ix.reindex id)) :
    Leads R (ix.rebuildOne p id) := by
  refine Action.leads_bind hR (Action.leads_attempt h) fun outcome => ?_
  cases outcome with
  | ok r => exact Action.leads_pure hR _
  | error e =>
    dsimp only
    split
    · exact fun b => hR.refl b
    · exact Action.leads_bind hR (Action.leads_log hR _ _ _ _ _) fun _ => Action.leads_pure hR _

theorem leads_rebuildEach (hR : Frame R) (ix : Indexer) {todo : List String}
    (h : ∀ id ∈ todo, Leads R (ix.reindex id)) (p : Progress) : Leads R (ix.rebuildEach p todo) := by
  induction todo generalizing p with
  | nil => exact Action.leads_pure hR _
  | cons id rest ih =>
    rw [List.forall_mem_cons] at h
    exact Action.leads_bind hR (leads_rebuildOne hR ix p h.1) fun p =>
      Action.leads_bind hR (ih h.2 p) fun _ => Action.leads_pure hR _

theorem leads_reindexEach (hR : Frame R) (ix : Indexer) (most : Int) {todo : List String}
    (h : ∀ id ∈ todo, Leads R (ix.reindex id)) (inRow : Nat) (p : Progress) :
    Leads R (ix.reindexEach most inRow p todo) := by
  induction todo generalizing inRow p with
  | nil => exact Action.leads_bind hR (leads_seconds hR) fun _ => Action.leads_pure hR _
  | cons id rest ih =>
    rw [List.forall_mem_cons] at h
    refine Action.leads_bind hR (Action.leads_attempt h.1) fun outcome => ?_
    cases outcome with
    | ok r => exact ih h.2 _ _
    | error e =>
      dsimp only
      split
      · exact fun b => hR.refl b
      · refine Action.leads_bind hR (Action.leads_log hR _ _ _ _ _) fun _ => ?_
        split
        · exact Action.leads_bind hR (Action.leads_log hR _ _ _ _ _) fun _ =>
            Action.leads_bind hR (leads_seconds hR) fun _ => Action.leads_pure hR _
        · exact ih h.2 _ _

theorem leads_rebuild (hR : Frame R) (ix : Indexer) (h : ∀ id, Leads R (ix.reindex id)) : Leads R ix.rebuild := by
  refine Action.leads_bind hR (Action.leads_readStore hR _) fun ids =>
    Action.leads_bind hR (leads_seconds hR) fun t => Action.leads_bind hR (Action.leads_log hR _ _ _ _ _) fun _ =>
      Action.leads_bind hR (leads_rebuildEach hR ix (fun id _ => h id) _) fun updates =>
        Action.leads_bind hR (leads_seconds hR) fun _ => ?_
  exact Action.leads_bind hR (leads_seconds hR) fun _ =>
    Action.leads_bind hR (Action.leads_log hR _ _ _ _ _) fun _ => Action.leads_pure hR _

theorem leads_reindexMany (hR : Frame R) (ix : Indexer) (ids : List String) (most : Int)
    (h : ∀ id ∈ ids, Leads R (ix.reindex id)) : Leads R (ix.reindexMany ids most) :=
  Action.leads_bind hR (leads_seconds hR) fun _ => leads_reindexEach hR ix most h _ _

end

theorem keeps_rebuild (ix : Indexer) : Leads (Keeps Set.univ) ix.rebuild :=
  leads_rebuild (frame_keeps _) ix fun _ => keeps_reindex ix trivial

end Indexer

/-! Counting failures. -/

namespace Progress

def Clean (p : Progress) : Prop := p.failed = 0 ∧ p.skipped = 0

/-- A later progress that still counts all failures of an earlier one. -/
structure Grows (p q : Progress) : Prop where
  failed : p.failed ≤ q.failed
  skipped : p.skipped ≤ q.skipped

theorem Grows.refl (p : Progress) : p.Grows p := ⟨Int.le_refl _, Int.le_refl _⟩

theorem Grows.trans {p q r : Progress} (h : p.Grows q) (h' : q.Grows r) : p.Grows r :=
  ⟨Int.le_trans h.failed h'.failed, Int.le_trans h.skipped h'.skipped⟩

/-- Failures are never taken back: if there is none in the end, there was none on the way. -/
theorem Grows.clean_between {p q r : Progress} (h : p.Grows q) (h' : q.Grows r) (hp : p.Clean) (hr : r.Clean) :
    q.Clean :=
  ⟨Int.le_antisymm (hr.1 ▸ h'.failed) (hp.1 ▸ h.failed),
    Int.le_antisymm (hr.2 ▸ h'.skipped) (hp.2 ▸ h.skipped)⟩

/-- A progress after one more document went through. -/
theorem grows_addDone (p : Progress) (r : Reindexed) (n : Int) : p.Grows { p.addDone r with processed := n } :=
  ⟨Int.le_refl _, Int.le_add_of_nonneg_right (Int.natCast_nonneg _)⟩

theorem grows_addFailed (p : Progress) (id : String) (e : Fault) (n : Int) :
    p.Grows { p.addFailed id e with processed := n } :=
  ⟨Int.le_add_of_nonneg_right Int.one_nonneg, Int.le_refl _⟩

theorem not_clean_addFailed {p : Progress} (hp : p.Clean) (id : String) (e : Fault) (n : Int) :
    ¬ Clean { p.addFailed id e with processed := n } := by
  rintro ⟨h, -⟩
  have h' : p.failed + 1 = 0 := h
  have := hp.1
  omega

theorem failed_eq_zero {p : Progress} (hp : p.Clean) {r : Reindexed} {n : Int}
    (h : Clean { p.addDone r with processed := n }) : r.failed = 0 := by
  have h' : p.skipped + r.failed = 0 := h.2
  have := hp.2
  omega

end Progress

namespace Indexer

/-- Documents that were reindexed in their order, each as a whole. -/
inductive Swept (ix : Indexer) : List String → Base → Base → Prop where
  | done (b : Base) : Swept ix [] b b
  | next {rest : List String} {b c b' : Base} {r : Reindexed} {d : Document}
      (found : (Store.document r.document b.store).outcome = .ok d) (work : Done ix d b r c) (whole : r.failed = 0)
      (others : Swept ix rest c b') : Swept ix (r.document :: rest) b b'

theorem rebuildOne_ok {ix : Indexer} {p q : Progress} {id : String} {b b' : Base}
    (h : runOn (ix.rebuildOne p id) b = (.ok q, b')) :
    p.Grows q ∧ (p.Clean → q.Clean →
      ∃ r d, r.document = id ∧ (Store.document id b.store).outcome = .ok d ∧ Done ix d b r b' ∧
        r.failed = 0) := by
  obtain ⟨outcome, c, hr, h⟩ := runOn_bind_ok.1 h
  obtain ⟨hr, rfl⟩ := Prod.mk.inj hr
  cases hr
  rcases runOn_reindex (rfl : runOn (ix.reindex id) b = (_, _)) with ⟨e, he, -⟩ | ⟨r, d, hok, hi, hd, hdone⟩
  · rw [he] at h
    dsimp only at h
    split at h
    · cases h
    · cases h
      exact ⟨p.grows_addFailed id e _, fun hp hq => absurd hq (Progress.not_clean_addFailed hp id e _)⟩
  · rw [hok] at h
    cases h
    exact ⟨p.grows_addDone r _, fun hp hq => ⟨r, d, hi, hd, hdone, Progress.failed_eq_zero hp hq⟩⟩

/-- A rebuild without a failure has swept over its documents. -/
theorem rebuildEach_ok {ix : Indexer} {todo : List String} :
    ∀ {p : Progress} {updates : List Progress} {b b' : Base}, runOn (ix.rebuildEach p todo) b = (.ok updates, b') →
      p.Grows (updates.getLastD p) ∧ (p.Clean → (updates.getLastD p).Clean → Swept ix todo b b') := by
  induction todo with
  | nil =>
    intro p updates b b' h
    cases h
    exact ⟨Progress.Grows.refl p, fun _ _ => .done b⟩
  | cons id rest ih =>
    intro p updates b b' h
    obtain ⟨q, c, h₁, h⟩ := runOn_bind_ok.1 h
    obtain ⟨us, c', h₂, h⟩ := runOn_bind_ok.1 h
    cases h
    obtain ⟨hg, hone⟩ := rebuildOne_ok h₁
    obtain ⟨hg', hrest⟩ := ih h₂
    rw [List.getLastD_cons]
    refine ⟨hg.trans hg', fun hp hq => ?_⟩
    have hm := hg.clean_between hg' hp hq
    obtain ⟨r, d, rfl, hd, hdone, h0⟩ := hone hp hm
    exact .next hd hdone h0 (hrest hm hq)

/-- A batch without a failure has swept over its documents, too. -/
theorem reindexEach_ok {ix : Indexer} {most : Int} {todo : List String} :
    ∀ {inRow : Nat} {p q : Progress} {b b' : Base}, runOn (ix.reindexEach most inRow p todo) b = (.ok q, b') →
      p.Grows q ∧ (p.Clean → q.Clean → Swept ix todo b b') := by
  induction todo with
  | nil =>
    intro inRow p q b b' h
    cases h
    exact ⟨⟨Int.le_refl _, Int.le_refl _⟩, fun _ _ => .done b⟩
  | cons id rest ih =>
    intro inRow p q b b' h
    obtain ⟨outcome, c, hr, h⟩ := runOn_bind_ok.1 h
    obtain ⟨hr, rfl⟩ := Prod.mk.inj hr
    cases hr
    rcases runOn_reindex (rfl : runOn (ix.reindex id) b = (_, _)) with ⟨e, he, -⟩ | ⟨r, d, hok, rfl, hd, hdone⟩
    · rw [he] at h
      dsimp only at h
      split at h
      · cases h
      · obtain ⟨u, c, -, h⟩ := runOn_bind_ok.1 h
        have hg := p.grows_addFailed id e (p.processed + 1)
        have hmore : Progress.Grows { p.addFailed id e with processed := p.processed + 1 } q := by
          split at h
          · cases h
            exact ⟨Int.le_refl _, Int.le_refl _⟩
          · exact (ih h).1
        refine ⟨hg.trans hmore, fun hp hq => ?_⟩
        exact absurd (hg.clean_between hmore hp hq) (Progress.not_clean_addFailed hp id e _)
    · rw [hok] at h
      have hg := p.grows_addDone r (p.processed + 1)
      obtain ⟨hg', hrest⟩ := ih h
      refine ⟨hg.trans hg', fun hp hq => ?_⟩
      have hm := hg.clean_between hg' hp hq
      exact .next hd hdone (Progress.failed_eq_zero hp hm) (hrest hm hq)

/-! What a sweep leaves. -/

/-- A sweep changes the chunks of its own documents only. -/
theorem Swept.kept {ix : Indexer} {ids : List String} {b b' : Base} (h : Swept ix ids b b') (hs : b.store.Sound) :
    Kept {id | id ∈ ids} b b' := by
  induction h with
  | done b => exact Kept.refl _ hs
  | @next rest b c b' r d _ work _ _ ih =>
    have hk := work.kept hs
    exact (hk.mono fun _ he => he ▸ List.mem_cons_self).trans ((ih hk.sound).mono fun _ => List.mem_cons_of_mem _)

/-- Every document that was swept over has its chunks. -/
theorem Swept.remade {ix : Indexer} {ids : List String} {b b' : Base} (h : Swept ix ids b b') (hs : b.store.Sound) :
    ∀ x ∈ b.store.sources, x.id ∈ ids → Remade ix.budget b.provider x (b'.store.piecesOf x.id) := by
  induction h with
  | done b => exact fun _ _ => nofun
  | @next rest b c b' r d found work whole others ih =>
    intro x hx hi
    have hk := work.kept hs
    by_cases hrest : x.id ∈ rest
    · rw [← hk.provider]
      exact ih hk.sound x (hk.sources ▸ hx) hrest
    · have hid : x.id = r.document := (List.mem_cons.1 hi).resolve_right hrest
      obtain ⟨hm, hdi⟩ := Store.document_outcome hs found
      have hxd : d.source = x := Store.eq_of_mem_sources hs hm hx (hdi.trans hid.symm)
      rw [(others.kept hk.sound).others x.id hrest, hid, ← hxd]
      exact work.remade hs whole

/-- A sweep asks for the segments of its documents, in their order. -/
theorem Swept.asked {ix : Indexer} {ids : List String} {b b' : Base} (h : Swept ix ids b b') (hs : b.store.Sound) :
    ∃ xs : List Source, xs.map Source.id = ids ∧ (∀ x ∈ xs, x ∈ b.store.sources) ∧
      b'.asked = b.asked ++ xs.flatMap fun x => (Segment.segmentText ix.budget x.content).map x.input := by
  induction h with
  | done b => exact ⟨[], rfl, nofun, by simp⟩
  | @next rest b c b' r d found work _ _ ih =>
    have hk := work.kept hs
    obtain ⟨hm, hdi⟩ := Store.document_outcome hs found
    obtain ⟨xs, hids, hxs, ha⟩ := ih hk.sound
    refine ⟨d.source :: xs, by rw [List.map_cons, hids]; exact congrArg (· :: rest) hdi, ?_, ?_⟩
    · rintro x (_ | ⟨_, hx⟩)
      · exact hm
      · exact hk.sources ▸ hxs x hx
    · rw [ha, work.asked, List.flatMap_cons, List.append_assoc]
      rfl

/-! The two batches. -/

/-- A rebuild in which nothing fails gives every document its chunks. -/
theorem rebuild_remade {ix : Indexer} {p : Progress} {updates : List Progress} {b b' : Base}
    (h : runOn ix.rebuild b = (.ok (p, updates), b')) (hp : p.Clean) (hs : b.store.Sound) :
    ∀ x ∈ b.store.sources, Remade ix.budget b.provider x (b'.store.piecesOf x.id) := by
  obtain ⟨ids, c, hr, h⟩ := runOn_bind_ok.1 h
  obtain ⟨l, hl, hmem⟩ := Store.ids_outcome hs
  rw [Action.runOn_readStore, hl] at hr
  cases hr
  obtain ⟨t, c, ht, h⟩ := runOn_bind_ok.1 h
  cases ht
  obtain ⟨u, c, hu, h⟩ := runOn_bind_ok.1 h
  cases hu
  obtain ⟨us, c, hus, h⟩ := runOn_bind_ok.1 h
  obtain ⟨t', c', ht', h⟩ := runOn_bind_ok.1 h
  cases ht'
  obtain ⟨t', c', ht', h⟩ := runOn_bind_ok.1 h
  cases ht'
  obtain ⟨u, c', hu, h⟩ := runOn_bind_ok.1 h
  cases hu
  cases h
  have hswept := (rebuildEach_ok hus).2 ⟨rfl, rfl⟩ hp
  exact fun x hx => hswept.remade hs x hx ((hmem x.id).2 ⟨x, hx, rfl⟩)

/-- A batch in which nothing fails sweeps over its documents. -/
theorem reindexMany_swept {ix : Indexer} {ids : List String} {most : Int} {p : Progress} {b b' : Base}
    (h : runOn (ix.reindexMany ids most) b = (.ok p, b')) (hp : p.Clean) : Swept ix ids b b' := by
  obtain ⟨t, c, ht, h⟩ := runOn_bind_ok.1 h
  cases ht
  exact (reindexEach_ok h).2 ⟨rfl, rfl⟩ hp

/-! Batches that go through. -/

/-- A base in which every stored document can be reindexed as a whole. -/
structure Ready (ix : Indexer) (b : Base) : Prop where
  sound : b.store.Sound
  numbered : Numbered b
  answers : Answers b.provider
  admits : Admits b.refusals
  room : ∀ x ∈ b.store.sources, b.store.HasRoom (Segment.segmentText ix.budget x.content).length

theorem Ready.kept {ix : Indexer} {ids : Set String} {b b' : Base} (h : Ready ix b) (hk : Kept ids b b') :
    Ready ix b' where
  sound := hk.sound
  numbered := hk.numbered h.numbered
  answers := hk.provider ▸ h.answers
  admits := hk.refusals ▸ h.admits
  room x hx := hk.room _ (h.room x (hk.sources ▸ hx))

theorem kept_noting {b : Base} (hs : b.store.Sound) (es : List Entry) : Kept Set.univ b (b.noting es) :=
  (frame_keeps Set.univ).noting b es hs

theorem Ready.noting {ix : Indexer} {b : Base} (h : Ready ix b) (es : List Entry) : Ready ix (b.noting es) :=
  h.kept (kept_noting h.sound es)

/-- One document of a batch goes through, and the base stays ready for the others. -/
theorem Ready.reindex {ix : Indexer} {b : Base} (h : Ready ix b) {x : Source} (hx : x ∈ b.store.sources) :
    ∃ r c, runOn (ix.reindex x.id) b = (.ok r, c) ∧ r.failed = 0 ∧ Ready ix c ∧
      c.store.sources = b.store.sources := by
  obtain ⟨r, c, hr, h0⟩ := reindex_answered ix h.sound h.numbered h.answers h.admits hx (h.room x hx)
  have hk := (keeps_reindex ix (show x.id ∈ Set.univ from trivial)).of_run hr h.sound
  exact ⟨r, c, hr, h0, h.kept hk, hk.sources⟩

theorem clean_addDone {p : Progress} (hp : p.Clean) {r : Reindexed} (h0 : r.failed = 0) (n : Int) :
    Progress.Clean { p.addDone r with processed := n } := by
  refine ⟨hp.1, ?_⟩
  have := hp.2
  change p.skipped + r.failed = 0
  omega

theorem rebuildEach_answered (ix : Indexer) (todo : List String) :
    ∀ (p : Progress) (b : Base), p.Clean → Ready ix b →
      (∀ id ∈ todo, ∃ x ∈ b.store.sources, x.id = id) →
      ∃ updates b', runOn (ix.rebuildEach p todo) b = (.ok updates, b') ∧ (updates.getLastD p).Clean := by
  induction todo with
  | nil => exact fun p b hp _ _ => ⟨[], b, rfl, hp⟩
  | cons id rest ih =>
    intro p b hp hr h
    rw [List.forall_mem_cons] at h
    obtain ⟨⟨x, hx, rfl⟩, hrest⟩ := h
    obtain ⟨r, c, hone, h0, hc, hsame⟩ := hr.reindex hx
    have hp' := clean_addDone hp h0 (p.processed + 1)
    obtain ⟨us, b', hus, hclean⟩ := ih _ c hp' hc (hsame ▸ hrest)
    refine ⟨{ p.addDone r with processed := p.processed + 1 } :: us, b', ?_, by rwa [List.getLastD_cons]⟩
    simp only [rebuildEach, rebuildOne, runOn_bind, Action.runOn_attempt, hone, Action.runOn_pure]
    rw [hus]

theorem reindexEach_answered (ix : Indexer) (most : Int) (todo : List String) :
    ∀ (inRow : Nat) (p : Progress) (b : Base), p.Clean → Ready ix b →
      (∀ id ∈ todo, ∃ x ∈ b.store.sources, x.id = id) →
      ∃ q b', runOn (ix.reindexEach most inRow p todo) b = (.ok q, b') ∧ q.Clean := by
  induction todo with
  | nil => exact fun _ p b hp _ _ => ⟨_, b, rfl, hp⟩
  | cons id rest ih =>
    intro inRow p b hp hr h
    rw [List.forall_mem_cons] at h
    obtain ⟨⟨x, hx, rfl⟩, hrest⟩ := h
    obtain ⟨r, c, hone, h0, hc, hsame⟩ := hr.reindex hx
    obtain ⟨q, b', hq, hclean⟩ := ih 0 _ c (clean_addDone hp h0 (p.processed + 1)) hc (hsame ▸ hrest)
    refine ⟨q, b', ?_, hclean⟩
    simp only [reindexEach, runOn_bind, Action.runOn_attempt, hone]
    exact hq

/-- Where every document can be reindexed, a rebuild goes through without a failure. -/
theorem rebuild_answered {ix : Indexer} {b : Base} (h : Ready ix b) :
    ∃ p updates b', runOn ix.rebuild b = (.ok (p, updates), b') ∧ p.Clean := by
  obtain ⟨l, hl, hmem⟩ := Store.ids_outcome h.sound
  have hids : runOn (Action.readStore Store.ids) b = (.ok l, b.noting _) := hl ▸ Action.runOn_readStore _ _
  obtain ⟨us, c, hus, hclean⟩ := rebuildEach_answered ix l
    { total := l.length, status := .running, started := some (.decimal (b.clock.toFloat / 1000000.0)) } _ ⟨rfl, rfl⟩
    ((h.noting _).noting _) fun id hi => (hmem id).1 hi
  exact ⟨_, us, _, runOn_bind_ok.2 ⟨l, _, hids, runOn_bind_ok.2 ⟨_, _, rfl, runOn_bind_ok.2 ⟨(), _, rfl,
    runOn_bind_ok.2 ⟨us, c, hus, rfl⟩⟩⟩⟩, hclean⟩

/-- A batch over stored documents goes through without a failure as well. -/
theorem reindexMany_answered {ix : Indexer} {b : Base} (h : Ready ix b) (ids : List String) (most : Int)
    (hids : ∀ id ∈ ids, ∃ x ∈ b.store.sources, x.id = id) :
    ∃ p b', runOn (ix.reindexMany ids most) b = (.ok p, b') ∧ p.Clean := by
  obtain ⟨p, b', hp, hclean⟩ := reindexEach_answered ix most ids 0
    { total := ids.length, status := .running, started := some (.decimal (b.clock.toFloat / 1000000.0)) } b
      ⟨rfl, rfl⟩ h hids
  exact ⟨p, b', runOn_bind_ok.2 ⟨_, b, rfl, hp⟩, hclean⟩

end Indexer

end Compendium
