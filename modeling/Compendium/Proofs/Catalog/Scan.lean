import Compendium.Catalog.Basic
import Compendium.Proofs.Files.Tree
import Compendium.Proofs.Runs
import Compendium.Proofs.Store.Holdings

/-!
What a scan does to the store. A scan of files touches the documents that it
reports and no others, and the chunks stay as they were; a reported document
says what its file says.
-/
namespace Compendium.Catalog

open Compendium.Action (runOn runOn_bind runOn_bind_ok Leads Frame)

def fileAt (root : Path) (names : List String) : Path := { root with names := root.names ++ names }

structure FromFile (root : Path) (t : Tree) (names : List String) (x : Source) : Prop where
  path : x.path = (fileAt root names).text
  content : t.read (fileAt root names) = .ok x.content
  entry : (x.category, x.title) = entryOf names

/-- What became of the store when one file was compared with it. -/
inductive Visit (path category title content : String) (b : Base) : Option String → Base → Prop where
  | same {b' : Base} (x : Source) (found : x ∈ b.store.sources) (at_ : x.path = path)
      (equal : x.content = content ∧ x.category = category ∧ x.title = title) (store : b'.store = b.store)
      (issued : b'.issued = b.issued) : Visit path category title content b none b'
  | added {b' : Base} (free : ∀ x ∈ b.store.sources, x.path ≠ path)
      (put : Store.PutIn ⟨Action.idText (b.issued + 1), category, title, content, path⟩ b.store b'.store)
      (issued : b'.issued = b.issued + 1) :
      Visit path category title content b (some (Action.idText (b.issued + 1))) b'
  | changed {b' : Base} (x : Source) (found : x ∈ b.store.sources) (at_ : x.path = path)
      (differs : ¬(x.content = content ∧ x.category = category ∧ x.title = title))
      (put : Store.PutIn ⟨x.id, category, title, content, path⟩ b.store b'.store) (issued : b'.issued = b.issued) :
      Visit path category title content b (some x.id) b'

theorem runOn_putDocument {b : Base} (hs : b.store.Sound) (d : Document) :
    ∃ s, runOn (Action.putDocument d) b = (.ok (), { b with store := s }) ∧ Store.PutIn d.source b.store s := by
  obtain ⟨s, hs, hput⟩ := Store.put_outcome hs (Time.ofUnixMicros b.clock) d
  exact ⟨s, by simp only [Action.putDocument, runOn_bind, Action.runOn_now, Action.runOn_writeStore, hs], hput⟩

theorem runOn_log (level : Level) (origin message : String) (fields : List (String × Json)) (b : Base) :
    ∃ es, runOn (log level origin message fields) b = (.ok (), b.noting es) := ⟨_, rfl⟩

/-- Comparing a file with a sound store never fails. -/
theorem runOn_scanFile {b : Base} (hs : b.store.Sound) (path : Path) (category title content : String) :
    ∃ r b', runOn (scanFile path category title content) b = (.ok r, b') ∧ b.Steady b' ∧
      Visit path.text category title content b r b' := by
  obtain ⟨es, hread⟩ : ∃ es, runOn (Action.readStore (Store.atPath? path.text)) b =
      ((Store.atPath? path.text b.store).outcome, b.noting es) := ⟨_, Action.runOn_readStore _ _⟩
  rcases Store.atPath_outcome hs path.text with ⟨hnone, hfree⟩ | ⟨d, hsome, hd, hp⟩
  · rw [hnone] at hread
    let d : Document := ⟨Action.idText (b.issued + 1), category, title, content, path.text,
      some (Time.ofUnixMicros b.clock), some (Time.ofUnixMicros b.clock)⟩
    obtain ⟨s, hput, hin⟩ := runOn_putDocument (b := { b.noting es with issued := b.issued + 1 }) hs d
    have hnew : runOn (newDocument category title content path.text) (b.noting es) =
        (.ok d, { b.noting es with issued := b.issued + 1 }) := rfl
    let c : Base := { b.noting es with issued := b.issued + 1, store := s }
    obtain ⟨es', hlog⟩ := runOn_log .info "scan" "Added knowledge item"
      [("id", .text d.id), ("title", .text title), ("category", .text category)] c
    refine ⟨some d.id, c.noting es', ?_, ⟨rfl, rfl, rfl, rfl, Nat.le_succ _⟩, .added hfree hin rfl⟩
    exact runOn_bind_ok.2 ⟨none, _, hread, runOn_bind_ok.2 ⟨d, _, hnew, runOn_bind_ok.2 ⟨(), c, hput,
      runOn_bind_ok.2 ⟨(), _, hlog, rfl⟩⟩⟩⟩
  · rw [hsome] at hread
    by_cases heq : d.content = content ∧ d.category = category ∧ d.title = title
    · refine ⟨none, b.noting es, ?_, Base.steady_noting _ _, .same d.source hd hp heq rfl rfl⟩
      simp only [scanFile, runOn_bind, hread, heq, decide_true, Bool.and_self, if_true, Action.runOn_pure]
    · obtain ⟨s, hput, hin⟩ := runOn_putDocument (b := b.noting es) hs
        { d with
          category := category, title := title, content := content
          updated := some (Time.ofUnixMicros (b.noting es).clock) }
      have hin' : Store.PutIn ⟨d.id, category, title, content, path.text⟩ b.store s := hp ▸ hin
      let c : Base := { b.noting es with store := s }
      obtain ⟨es', hlog⟩ :=
        runOn_log .debug "scan" "Updated knowledge item" [("id", .text d.id), ("title", .text title)] c
      refine ⟨some d.id, c.noting es', ?_, ⟨rfl, rfl, rfl, rfl, Nat.le_refl _⟩,
        .changed d.source hd hp heq hin' rfl⟩
      refine runOn_bind_ok.2 ⟨some d, _, hread, ?_⟩
      simp only [Bool.and_eq_true, decide_eq_true_eq, and_assoc, heq, if_false]
      exact runOn_bind_ok.2 ⟨_, _, Action.runOn_now _, runOn_bind_ok.2 ⟨(), c, hput,
        runOn_bind_ok.2 ⟨(), _, hlog, rfl⟩⟩⟩

/-- What is read of a file is its text; nothing but the journal changes. -/
theorem runOn_readFile_ok {path : Path} {b b' : Base} {r : Option String} (h : runOn (readFile path) b = (.ok r, b')) :
    (∃ es, b' = b.noting es) ∧ ∀ content, r = some content → b.files.read path = .ok content := by
  obtain ⟨outcome, c, ho, h⟩ := runOn_bind_ok.1 h
  simp only [Action.runOn_attempt, Action.runOn_readFiles, Prod.mk.injEq, Except.ok.injEq] at ho
  obtain ⟨rfl, rfl⟩ := ho
  cases hr : b.files.read path with
  | ok content =>
    rw [hr] at h
    cases h
    exact ⟨⟨[], by simp [Base.noting]⟩, fun content' h => by cases h; rfl⟩
  | error e =>
    rw [hr] at h
    dsimp only at h
    split at h
    · cases h
    · cases h
      exact ⟨⟨_, rfl⟩, fun content' h => by cases h⟩

/-- Where a reported id comes from: a document of a visited file, or a new number. -/
def Origin (root : Path) (visited : List (List String)) (b b' : Base) (id : String) : Prop :=
  (∃ x ∈ b.store.sources, x.id = id ∧ ∃ names ∈ visited, x.path = (fileAt root names).text) ∨
    ∃ n, b.issued < n ∧ n ≤ b'.issued ∧ id = Action.idText n

/-- What a scan of some files did, told from the ids that it reports. -/
structure Scanned (root : Path) (visited : List (List String)) (b : Base) (changed : List String) (b' : Base) : Prop
    extends Base.Steady b b', Store.SameChunks b.store b'.store where
  sound : b'.store.Sound
  stay : ∀ x ∈ b.store.sources, x.id ∉ changed → x ∈ b'.store.sources
  unreported : ∀ x ∈ b'.store.sources, x.id ∉ changed → x ∈ b.store.sources
  reported : ∀ id ∈ changed, ∃ x ∈ b'.store.sources, x.id = id
  fromFile : ∀ x ∈ b'.store.sources, x.id ∈ changed → ∃ names ∈ visited, FromFile root b.files names x
  origin : ∀ id ∈ changed, Origin root visited b b' id
  paths : b.store.PathsDiffer → b'.store.PathsDiffer

theorem Scanned.nothing (root : Path) (files : List (List String)) {b : Base} (hs : b.store.Sound) :
    Scanned root files b [] b where
  toSteady := Base.Steady.refl b
  pieces _ := rfl
  ids := rfl
  room _ h := h
  sound := hs
  stay _ hx _ := hx
  unreported _ hx _ := hx
  reported := nofun
  fromFile _ _ := nofun
  origin := nofun
  paths h := h

/-- Two scans in a row make one that reports what both do. -/
theorem Scanned.trans {root : Path} {files : List (List String)} {b c d : Base} {first second : List String}
    (h : Scanned root files b first c) (h' : Scanned root files c second d) :
    Scanned root files b (first ++ second) d where
  toSteady := h.toSteady.trans h'.toSteady
  pieces id := (h'.pieces id).trans (h.pieces id)
  ids := h'.ids.trans h.ids
  room n hn := h'.room n (h.room n hn)
  sound := h'.sound
  stay x hx hn := by
    rw [List.mem_append, not_or] at hn
    exact h'.stay x (h.stay x hx hn.1) hn.2
  unreported x hx hn := by
    rw [List.mem_append, not_or] at hn
    exact h.unreported x (h'.unreported x hx hn.2) hn.1
  reported id hi := by
    by_cases hd : id ∈ second
    · exact h'.reported id hd
    · obtain ⟨x, hx, rfl⟩ := h.reported id ((List.mem_append.1 hi).resolve_right hd)
      exact ⟨x, h'.stay x hx hd, rfl⟩
  fromFile x hx hi := by
    by_cases hd : x.id ∈ second
    · rw [← h.files]
      exact h'.fromFile x hx hd
    · exact h.fromFile x (h'.unreported x hx hd) ((List.mem_append.1 hi).resolve_right hd)
  origin id hi := by
    by_cases hf : id ∈ first
    · exact (h.origin id hf).imp_right fun ⟨n, hn, hle, he⟩ => ⟨n, hn, Nat.le_trans hle h'.issued, he⟩
    · rcases h'.origin id ((List.mem_append.1 hi).resolve_left hf) with ⟨x, hx, rfl, hv⟩ | ⟨n, hn, hle, he⟩
      · exact .inl ⟨x, h.unreported x hx hf, rfl, hv⟩
      · exact .inr ⟨n, Nat.lt_of_le_of_lt h.issued hn, hle, he⟩
  paths hb := h'.paths (h.paths hb)

theorem Scanned.mono {root : Path} {files files' : List (List String)} {b b' : Base} {changed : List String}
    (h : Scanned root files b changed b') (hf : files ⊆ files') : Scanned root files' b changed b' :=
  { h with
    fromFile := fun x hx hi => by
      obtain ⟨names, hn, hx⟩ := h.fromFile x hx hi
      exact ⟨names, hf hn, hx⟩
    origin := fun id hi => (h.origin id hi).imp_left fun ⟨x, hx, he, names, hn, hp⟩ =>
      ⟨x, hx, he, names, hf hn, hp⟩ }

/-- A file that was put in place is the only thing that a scan of it reports. -/
theorem PutIn.scanned {root : Path} {names : List String} {b b' : Base} {x : Source}
    (h : Store.PutIn x b.store b'.store)
    (hb : b.Steady b') (hx : FromFile root b.files names x) (ho : Origin root [names] b b' x.id)
    (hp : b.store.PathsDiffer → ∀ y ∈ b.store.sources, y.id ≠ x.id → y.path ≠ x.path) :
    Scanned root [names] b [x.id] b' where
  toSteady := hb
  toSameChunks := h.toSameChunks
  sound := h.sound
  stay y hy hn := (h.mem_sources y).2 (.inr ⟨hy, fun he => hn (he ▸ List.mem_cons_self)⟩)
  unreported y hy hn := by
    rcases (h.mem_sources y).1 hy with rfl | ⟨hy, -⟩
    · exact absurd List.mem_cons_self hn
    · exact hy
  reported id hi := ⟨x, (h.mem_sources x).2 (.inl rfl), (List.mem_singleton.1 hi).symm⟩
  fromFile y hy hi := by
    rcases (h.mem_sources y).1 hy with rfl | ⟨-, hne⟩
    · exact ⟨names, List.mem_cons_self, hx⟩
    · exact absurd (List.mem_singleton.1 hi) hne
  origin id hi := List.mem_singleton.1 hi ▸ ho
  paths hb := (Store.pathsDiffer_iff h.mem_sources hb).2 (hp hb)

theorem Visit.scanned {root : Path} {names : List String} {content : String} {b b' : Base} {r : Option String}
    (h : Visit (fileAt root names).text (entryOf names).1 (entryOf names).2 content b r b') (hs : b.store.Sound)
    (hb : b.Steady b') (hc : b.files.read (fileAt root names) = .ok content) :
    Scanned root [names] b r.toList b' := by
  cases h with
  | same x _ _ _ hstore _ =>
    have hn := Scanned.nothing root [names] hs
    exact { hn with
      toSteady := hb
      pieces := fun id => by rw [hstore]
      ids := by rw [hstore]
      room := fun n h => hstore ▸ h
      sound := hstore ▸ hs
      stay := fun x hx _ => hstore ▸ hx
      unreported := fun x hx _ => hstore ▸ hx
      reported := nofun
      fromFile := nofun
      origin := nofun
      paths := fun h => hstore ▸ h }
  | added free put hi =>
    exact PutIn.scanned put hb ⟨rfl, hc, rfl⟩
      (.inr ⟨b.issued + 1, Nat.lt_succ_self _, Nat.le_of_eq hi.symm, rfl⟩)
      fun _ y hy _ => free y hy
  | changed y hy hp _ put _ =>
    exact PutIn.scanned (x := ⟨y.id, _, _, content, _⟩) put hb ⟨rfl, hc, rfl⟩
      (.inl ⟨y, hy, rfl, names, List.mem_cons_self, hp⟩) fun hb z hz hne he => hne (hb z hz y hy (he.trans hp.symm))

/-- The documents of a base bear ids that were given out. -/
def Named (b : Base) : Prop := ∀ x ∈ b.store.sources, ∃ n ≤ b.issued, x.id = Action.idText n

theorem Scanned.named {root : Path} {files : List (List String)} {b b' : Base} {changed : List String}
    (h : Scanned root files b changed b') (hb : Named b) : Named b' := by
  intro x hx
  by_cases hi : x.id ∈ changed
  · rcases h.origin x.id hi with ⟨y, hy, he, -⟩ | ⟨n, -, hle, he⟩
    · obtain ⟨n, hle, hn⟩ := hb y hy
      exact ⟨n, Nat.le_trans hle h.issued, he ▸ hn⟩
    · exact ⟨n, hle, he⟩
  · obtain ⟨n, hle, hn⟩ := hb x (h.unreported x hx hi)
    exact ⟨n, Nat.le_trans hle h.issued, hn⟩

/-- Files with paths of their own are never reported under one id. -/
theorem Scanned.disjoint {root : Path} {visited visited' : List (List String)} {b c d : Base}
    {first second : List String}
    (h : Scanned root visited b first c) (h' : Scanned root visited' c second d) (hc : Named c)
    (hd : ∀ m ∈ visited, ∀ n ∈ visited', (fileAt root m).text ≠ (fileAt root n).text) :
    first.Disjoint second := by
  intro id hf hs
  rcases h'.origin id hs with ⟨x, hx, rfl, n, hn, hp⟩ | ⟨n, hn, -, rfl⟩
  · obtain ⟨m, hm, hx⟩ := h.fromFile x hx hf
    exact hd m hm n hn (hx.path.symm.trans hp)
  · obtain ⟨x, hx, he⟩ := h.reported _ hf
    obtain ⟨k, hk, hk'⟩ := hc x hx
    have := Action.idText_inj (he.symm.trans hk')
    omega

/-- Files whose paths differ in writing. -/
def Apart (root : Path) (files : List (List String)) : Prop :=
  files.Pairwise fun m n => (fileAt root m).text ≠ (fileAt root n).text

/-- What a scan that went through has done. Where files differ in their paths and new ids are new, no id is reported
twice. -/
theorem scanFiles_ok {root : Path} {files : List (List String)} :
    ∀ {b b' : Base} {changed : List String}, b.store.Sound →
      runOn (scanFiles root files) b = (.ok changed, b') →
      Scanned root files b changed b' ∧ (Named b → Apart root files → changed.Nodup) := by
  induction files with
  | nil =>
    intro b b' changed hs h
    cases h
    exact ⟨Scanned.nothing root [] hs, fun _ _ => List.nodup_nil⟩
  | cons names rest ih =>
    intro b b' changed hs h
    obtain ⟨read, c, hr, h⟩ := runOn_bind_ok.1 h
    obtain ⟨⟨es, rfl⟩, hc⟩ := runOn_readFile_ok hr
    have hn : Scanned root [names] b [] (b.noting es) :=
      { Scanned.nothing root [names] hs with toSteady := Base.steady_noting b es }
    -- what the file itself comes to, before the rest of the files
    obtain ⟨r, c, hone, hnodup, h⟩ : ∃ r c, Scanned root [names] b (Option.toList r) c ∧
      (Option.toList r).Nodup ∧
        runOn (do return Option.toList r ++ (← scanFiles root rest)) c = (.ok changed, b') := by
      cases read with
      | none => exact ⟨none, b.noting es, hn, List.nodup_nil, h⟩
      | some content =>
        obtain ⟨r, c, hv, hsteady, hvisit⟩ := runOn_scanFile (b := b.noting es) hs (fileAt root names)
          (entryOf names).1 (entryOf names).2 content
        obtain ⟨r', c', hv', h⟩ := runOn_bind_ok.1 h
        cases hv.symm.trans hv'
        refine ⟨r, c, hn.trans (hvisit.scanned hs hsteady (hc content rfl)), ?_, h⟩
        cases r with
        | none => exact List.nodup_nil
        | some id => exact List.nodup_singleton id
    obtain ⟨more, c', hrest, h⟩ := runOn_bind_ok.1 h
    cases h
    obtain ⟨hmore, hnodup'⟩ := ih hone.sound hrest
    refine ⟨(hone.mono (by simp)).trans (hmore.mono (List.subset_cons_self _ _)), fun hb hapart => ?_⟩
    obtain ⟨hhead, hapart⟩ := List.pairwise_cons.1 hapart
    refine List.nodup_append'.2 ⟨hnodup, hnodup' (hone.named hb) hapart, hone.disjoint hmore (hone.named hb) ?_⟩
    rintro m hm n hn
    rw [List.mem_singleton.1 hm]
    exact hhead n hn

/-! Scans that go through. -/

/-- A file that cannot be read does not end a scan. -/
theorem read_fault {t : Tree} {path : Path} (hn : path.hasNul = false) {e : Fault} (he : t.read path = .error e) :
    (e.isA .system || e.isA .undecodable) = true := by
  simp only [Tree.read, Tree.readRaw, Tree.onPath, hn, Bool.false_eq_true, if_false] at he
  cases hc : t.contentOf path with
  | error d =>
    simp only [hc, Tree.failing, bind, Except.bind, Except.map, Except.error.injEq] at he
    subst he
    cases d <;> rfl
  | ok c =>
    simp only [hc, Tree.failing, bind, Except.bind] at he
    cases c with
    | text s => cases he
    | database =>
      cases he
      rfl
    | octets bytes =>
      simp only [Tree.contentText] at he
      cases hu : Text.Utf8.decode bytes with
      | ok s => simp [hu, Except.map] at he
      | error f =>
        simp only [hu, Except.map, Except.error.injEq] at he
        subst he
        rfl

theorem runOn_readFile {path : Path} (hn : path.hasNul = false) (b : Base) :
    ∃ r es, runOn (readFile path) b = (.ok r, b.noting es) := by
  have hr : runOn (Action.attempt (Action.readFiles fun t => t.read path)) b = (.ok (b.files.read path), b) := by simp
  cases hread : b.files.read path with
  | ok content =>
    refine ⟨some content, [], runOn_bind_ok.2 ⟨_, b, hr, ?_⟩⟩
    rw [hread]
    simp [Base.noting]
  | error e =>
    obtain ⟨es, hlog⟩ := runOn_log .warning "scan" "Failed to read knowledge file"
      [("path", .text path.text), ("error", .text e.message)] b
    refine ⟨none, es, runOn_bind_ok.2 ⟨_, b, hr, ?_⟩⟩
    rw [hread]
    simp only [read_fault hn hread, Bool.not_true, Bool.false_eq_true, if_false]
    exact runOn_bind_ok.2 ⟨(), _, hlog, rfl⟩

theorem scanFiles_skip {root : Path} {names : List String} {rest : List (List String)} {b c b' : Base}
    {more : List String} (hread : runOn (readFile (fileAt root names)) b = (.ok none, c))
    (hmore : runOn (scanFiles root rest) c = (.ok more, b')) :
    runOn (scanFiles root (names :: rest)) b = (.ok more, b') :=
  runOn_bind_ok.2 ⟨none, c, hread, runOn_bind_ok.2 ⟨none, c, rfl, runOn_bind_ok.2 ⟨more, b', hmore, rfl⟩⟩⟩

theorem scanFiles_visit {root : Path} {names : List String} {rest : List (List String)} {content : String}
    {b c d b' : Base} {r : Option String} {more : List String}
    (hread : runOn (readFile (fileAt root names)) b = (.ok (some content), c))
    (hvisit : runOn (scanFile (fileAt root names) (entryOf names).1 (entryOf names).2 content) c = (.ok r, d))
    (hmore : runOn (scanFiles root rest) d = (.ok more, b')) :
    runOn (scanFiles root (names :: rest)) b = (.ok (r.toList ++ more), b') :=
  runOn_bind_ok.2 ⟨some content, c, hread,
    runOn_bind_ok.2 ⟨r, d, hvisit, runOn_bind_ok.2 ⟨more, b', hmore, rfl⟩⟩⟩

/-- A scan goes through if its files can have the paths that they are given. -/
theorem scanFiles_total {root : Path} {files : List (List String)}
    (hn : ∀ names ∈ files, (fileAt root names).hasNul = false) :
    ∀ b : Base, b.store.Sound → ∃ changed b', runOn (scanFiles root files) b = (.ok changed, b') := by
  induction files with
  | nil => exact fun b _ => ⟨[], b, rfl⟩
  | cons names rest ih =>
    intro b hs
    rw [List.forall_mem_cons] at hn
    obtain ⟨read, es, hread⟩ := runOn_readFile hn.1 b
    cases read with
    | none =>
      obtain ⟨more, b', hmore⟩ := ih hn.2 (b.noting es) hs
      exact ⟨more, b', scanFiles_skip hread hmore⟩
    | some content =>
      obtain ⟨r, c, hv, hsteady, hvisit⟩ := runOn_scanFile (b := b.noting es) hs (fileAt root names)
        (entryOf names).1 (entryOf names).2 content
      have hone := hvisit.scanned hs hsteady ((runOn_readFile_ok hread).2 content rfl)
      obtain ⟨more, b', hmore⟩ := ih hn.2 c hone.sound
      exact ⟨r.toList ++ more, b', scanFiles_visit hread hv hmore⟩

/-! A scan as a whole. -/

/-- The files that a scan finds, as the names that lead to them. -/
def filesIn (root : Path) (t : Tree) : List (List String) :=
  match t.locate root with
  | .ok place => t.documentsBelow place
  | .error _ => []

theorem runOn_filesBelow (root : Path) (b : Base) : runOn (filesBelow root) b = (.ok (filesIn root b.files), b) := by
  simp only [filesBelow, filesIn, runOn_bind, Action.runOn_get]
  cases b.files.locate root <;> rfl

/-- A scan that went through has made its root, and visited the files that were there then. -/
theorem scan_ok {root : Path} {b b' : Base} {changed : List String} (hs : b.store.Sound)
    (h : runOn (scan root) b = (.ok changed, b')) :
    ∃ t, b.files.makeDirectories root = .ok t ∧ Scanned root (filesIn root t) { b with files := t } changed b' ∧
      (Named b → Apart root (filesIn root t) → changed.Nodup) := by
  obtain ⟨u, c, hmake, h⟩ := runOn_bind_ok.1 h
  rw [Action.runOn_writeFiles] at hmake
  cases ht : b.files.makeDirectories root with
  | error e =>
    rw [ht] at hmake
    cases hmake
  | ok t =>
    rw [ht] at hmake
    cases hmake
    obtain ⟨files, c, hfiles, h⟩ := runOn_bind_ok.1 h
    rw [runOn_filesBelow] at hfiles
    cases hfiles
    obtain ⟨ids, c, hscan, h⟩ := runOn_bind_ok.1 h
    obtain ⟨u, c', hlog, h⟩ := runOn_bind_ok.1 h
    cases hlog
    cases h
    obtain ⟨hscanned, hnodup⟩ := scanFiles_ok (b := { b with files := t }) hs hscan
    exact ⟨t, rfl, { hscanned with toSteady := hscanned.toSteady.trans (Base.steady_noting c _) }, hnodup⟩

/-- A scan that finds no impossible name fails only when the root cannot be made. -/
theorem scan_total {root : Path} {b : Base} {t : Tree} (hs : b.store.Sound) (ht : b.files.makeDirectories root = .ok t)
    (hn : ∀ names ∈ filesIn root t, (fileAt root names).hasNul = false) :
    ∃ changed b', runOn (scan root) b = (.ok changed, b') := by
  have hmake : runOn (Action.writeFiles fun t => t.makeDirectories root) b = (.ok (), { b with files := t }) := by
    rw [Action.runOn_writeFiles, ht]
  obtain ⟨changed, b', hscan⟩ := scanFiles_total hn { b with files := t } hs
  obtain ⟨es, hlog⟩ := runOn_log .info "scan" "Scanned knowledge base"
    [("path", .text root.text), ("changed", .nat changed.length)] b'
  exact ⟨changed, _, runOn_bind_ok.2 ⟨(), _, hmake, runOn_bind_ok.2 ⟨_, _, runOn_filesBelow root _,
    runOn_bind_ok.2 ⟨changed, b', hscan, runOn_bind_ok.2 ⟨(), _, hlog, rfl⟩⟩⟩⟩⟩

theorem fileAt_usable {root : Path} (h : root.Usable) {names : List String} (hn : ∀ n ∈ names, ProperName n) :
    (fileAt root names).Usable where
  slashes := h.slashes
  names n hm := (List.mem_append.1 hm).elim (h.names n) fun hm => (hn n hm).isName
  notNul := by
    have := h.notNul
    simp only [Path.hasNul, List.any_eq_false] at this ⊢
    intro n hm
    rcases List.mem_append.1 hm with hm | hm
    · exact this n hm
    · simpa using (hn n hm).notNul

theorem filesIn_proper {root : Path} {t : Tree} (ht : t.Sound) {names : List String} (hn : names ∈ filesIn root t) :
    names ≠ [] ∧ ∀ n ∈ names, ProperName n := by
  rw [filesIn] at hn
  split at hn
  · exact ⟨Tree.ne_nil_of_mem_documentsBelow hn, (ht.documentsBelow _).2 names hn⟩
  · cases hn

theorem filesIn_usable {root : Path} (h : root.Usable) {t : Tree} (ht : t.Sound) :
    ∀ names ∈ filesIn root t, (fileAt root names).Usable :=
  fun _ hn => fileAt_usable h (filesIn_proper ht hn).2

/-- A scan goes through unless its directory cannot be made, and then it has done nothing. -/
theorem runOn_scan {root : Path} (hr : root.Normal) {b : Base} (hs : b.store.Sound) (hf : b.files.Sound) :
    (∃ e, runOn (scan root) b = (.error e, b)) ∨
      ∃ t changed b', runOn (scan root) b = (.ok changed, b') ∧ b.files.Grown t ∧ root.Usable ∧
        Scanned root (filesIn root t) { b with files := t } changed b' := by
  cases ht : b.files.makeDirectories root with
  | error e => exact .inl ⟨e, by rw [scan, runOn_bind, Action.runOn_writeFiles, ht]⟩
  | ok t =>
    obtain ⟨hgrown, husable⟩ := Tree.makeDirectories_grown hf hr ht
    obtain ⟨changed, b', hrun⟩ := scan_total hs ht fun names hn =>
      (filesIn_usable husable hgrown.sound names hn).notNul
    obtain ⟨t', ht', hscan, -⟩ := scan_ok hs hrun
    cases ht.symm.trans ht'
    exact .inr ⟨t, changed, b', hrun, hgrown, husable, hscan⟩

/-- No two files are written alike. -/
theorem filesIn_apart {root : Path} (h : root.Usable) {t : Tree} (ht : t.Sound) : Apart root (filesIn root t) := by
  have hnodup : (filesIn root t).Nodup := by
    rw [filesIn]
    split
    · exact (ht.documentsBelow _).1
    · exact List.nodup_nil
  refine List.Pairwise.imp_of_mem (fun hm hn hne htext => hne ?_) hnodup
  have hpath := Path.text_inj (filesIn_usable h ht _ hm).toNormal (filesIn_usable h ht _ hn).toNormal htext
  exact List.append_cancel_left (congrArg Path.names hpath)

/-! What holds of a scan even if it stops halfway. -/

section
variable {R : Base → Base → Prop}

/-- Relations that a scan stays within: it makes directories, puts documents and gives out ids. -/
structure Admits (R : Base → Base → Prop) : Prop extends Frame R where
  put : ∀ now d b s, Store.put now d b.store = .ok s → R b { b with store := s }
  issue : ∀ b, R b { b with issued := b.issued + 1 }
  make : ∀ b t, R b { b with files := t }

theorem leads_putDocument (hR : Admits R) (d : Document) : Leads R (Action.putDocument d) :=
  Action.leads_bind hR.toFrame (Action.leads_now hR.toFrame) fun now =>
    Action.leads_writeStore hR.toFrame fun b s h => hR.put now d b s h

theorem leads_newId (hR : Admits R) : Leads R Action.newId := fun b => hR.issue b

theorem leads_newDocument (hR : Admits R) (category title content path : String) :
    Leads R (newDocument category title content path) := by
  have hf := hR.toFrame
  exact Action.leads_bind hf (Action.leads_now hf) fun _ =>
    Action.leads_bind hf (leads_newId hR) fun _ => Action.leads_pure hf _

theorem leads_writeFiles (hR : Admits R) (f : Tree → Except Fault Tree) : Leads R (Action.writeFiles f) :=
  Action.leads_writeFiles hR.toFrame fun b t _ => hR.make b t

theorem leads_scanFile (hR : Admits R) (path : Path) (category title content : String) :
    Leads R (scanFile path category title content) := by
  have hf := hR.toFrame
  refine Action.leads_bind hf (Action.leads_readStore hf _) fun found => ?_
  cases found with
  | none =>
    refine Action.leads_bind hf (leads_newDocument hR _ _ _ _) fun d => ?_
    exact Action.leads_bind hf (leads_putDocument hR d) fun _ =>
      Action.leads_bind hf (Action.leads_log hf _ _ _ _ _) fun _ => Action.leads_pure hf _
  | some d =>
    dsimp only
    split
    · exact Action.leads_pure hf _
    · exact Action.leads_bind hf (Action.leads_now hf) fun _ =>
        Action.leads_bind hf (leads_putDocument hR _) fun _ =>
          Action.leads_bind hf (Action.leads_log hf _ _ _ _ _) fun _ => Action.leads_pure hf _

theorem leads_readFile (hf : Frame R) (path : Path) : Leads R (readFile path) := by
  refine Action.leads_bind hf (Action.leads_attempt (Action.leads_readFiles hf _)) fun outcome => ?_
  cases outcome with
  | ok content => exact Action.leads_pure hf _
  | error e =>
    dsimp only
    split
    · exact fun b => hf.refl b
    · exact Action.leads_bind hf (Action.leads_log hf _ _ _ _ _) fun _ => Action.leads_pure hf _

theorem leads_scanFiles (hR : Admits R) (root : Path) (files : List (List String)) :
    Leads R (scanFiles root files) := by
  have hf := hR.toFrame
  induction files with
  | nil => exact Action.leads_pure hf _
  | cons names rest ih =>
    refine Action.leads_bind hf (leads_readFile hf _) fun read => ?_
    have hrest : ∀ r : Option String, Leads R (do return r.toList ++ (← scanFiles root rest)) := fun r =>
      Action.leads_bind hf ih fun _ => Action.leads_pure hf _
    cases read with
    | none => exact Action.leads_bind hf (Action.leads_pure hf none) hrest
    | some content => exact Action.leads_bind hf (leads_scanFile hR _ _ _ _) hrest

theorem leads_filesBelow (hf : Frame R) (root : Path) : Leads R (filesBelow root) := fun b => by
  rw [runOn_filesBelow]
  exact hf.refl b

/-- What the single steps stay within, a scan stays within. -/
theorem leads_scan (hR : Admits R) (root : Path) : Leads R (scan root) := by
  have hf := hR.toFrame
  exact Action.leads_bind hf (leads_writeFiles hR _) fun _ =>
    Action.leads_bind hf (leads_filesBelow hf root) fun _ =>
      Action.leads_bind hf (leads_scanFiles hR root _) fun _ =>
        Action.leads_bind hf (Action.leads_log hf _ _ _ _ _) fun _ => Action.leads_pure hf _

end

def StaysSound (b b' : Base) : Prop := b.store.Sound → b'.store.Sound

theorem admits_staysSound : Admits StaysSound where
  refl _ hs := hs
  trans h h' hs := h' (h hs)
  noting _ _ hs := hs
  put now d b s h hs := by
    obtain ⟨s', hs', hput⟩ := Store.put_outcome hs now d
    cases h.symm.trans hs'
    exact hput.sound
  issue _ hs := hs
  make _ _ hs := hs

/-- A scan asks for no embedding. -/
theorem admits_asked : Admits fun b b' => b'.asked = b.asked where
  refl _ := rfl
  trans h h' := h'.trans h
  noting _ _ := rfl
  put _ _ _ _ _ := rfl
  issue _ := rfl
  make _ _ := rfl

end Compendium.Catalog
