import Compendium.Proofs.Catalog.Adoption
import Compendium.Proofs.Store.Newest

/-!
Rewriting a document under its own category and title. It stays in its place exactly if its file lies where a file
would be made for the two. Below the base directory these are the files that lie two names down, with no blanks around
the name of the directory or the stem of the file; every other file is moved.
-/
namespace Compendium

namespace Store

variable {s s' : Store} {now t : Time} {d e old : Document}

/-- A row that is put in the place of an old one brings its own time of change. -/
theorem updated_putDocument {row r : DocumentRow} {u : Tables} (hr : r ∈ (u.putDocument row).documents)
    (hid : r.id = row.id) : r.updated = row.updated := by
  rw [Tables.putDocument] at hr
  split at hr
  · obtain ⟨r', -, rfl⟩ := List.mem_map.1 hr
    split at hid
    next hsame => rw [if_pos hsame]
    next hother => exact absurd hid hother
  next hfree =>
    rcases List.mem_append.1 hr with hr | hr
    · exact absurd (List.any_eq_true.2 ⟨r, hr, by simpa using hid⟩) hfree
    · rw [List.mem_singleton.1 hr]

/-- A document that is put in place was last changed when it says. -/
theorem updated_put (h : put now d s = .ok s') (he : (document d.id s').outcome = .ok e) (ht : d.updated = some t)
    (hvalid : t.isValid = true) (hkept : t.kept = t) : e.updated = some t := by
  cases s with
  | memory m =>
    cases h
    simp only [document, Memory.document, Memory.put, Keyed.get?_put_self, Reading.outcome_ofExcept] at he
    cases he
    exact ht
  | table db =>
    simp only [put, Database.put, Database.writing] at h
    split at h
    next hopen =>
      cases h
      simp only [document, Database.document, Database.reading, hopen, if_true] at he
      split at he
      next r hr =>
        have hid : r.id = d.id := by simpa using List.find?_some hr
        have hupdated := updated_putDocument (List.mem_of_find?_eq_some hr) hid
        have hread : (storedTime r.updated).outcome = .ok (some t) := by
          rw [hupdated, DocumentRow.ofDocument, ht, Option.getD_some, storedTime_iso hvalid, hkept]
        obtain ⟨created, hcreated⟩ := storedTime_outcome r.created
        simp only [DocumentRow.read, Reading.outcome_bind, hcreated, hread] at he
        cases he
        rfl
      next => cases he
    next => cases h

theorem chunksOf_deleteChunks {id : String} (h : deleteChunks id s = .ok s') : (chunksOf id s').outcome = .ok [] := by
  cases s with
  | memory m =>
    cases h
    simp [chunksOf, Memory.chunksOf, Memory.deleteChunks, Keyed.get?_erase_self]
  | table db =>
    simp only [deleteChunks, Database.deleteChunks, Database.writing] at h
    split at h
    next hopen =>
      cases h
      have hnone : ((db.tables.dropChunks id).chunks.filter fun r => r.document = id) = [] :=
        List.filter_eq_nil_iff.2 fun r hr => by simpa using (List.mem_filter.1 hr).2
      simp only [chunksOf, Database.chunksOf, Database.reading, hopen, if_true, hnone, List.mergeSort_nil]
      rfl
    next => cases h

/-- A document is there without chunks. All others are as they were, and so are the logs. -/
structure Bared (e : Document) (s s' : Store) : Prop where
  stored : (document e.id s').outcome = .ok e
  bare : (chunksOf e.id s').outcome = .ok []
  others : ∀ id, id ≠ e.id →
    (document id s').outcome = (document id s).outcome ∧ (chunksOf id s').outcome = (chunksOf id s).outcome
  logs : SameLogs s s'

end Store

namespace Catalog

open Compendium.Action (runOn runOn_bind runOn_bind_ok)

/-- A document that takes the place of an older one and loses its chunks is there as it was put. -/
theorem PutBare.bared {s s' : Store} (hs : s.Sound) {now t : Time} {d e old : Document} (h : PutBare now d s s')
    (hold : (Store.document d.id s).outcome = .ok old) (hcreated : d.created = old.created)
    (he : (Store.document d.id s').outcome = .ok e) :
    e = { d with updated := e.updated } ∧
      (d.updated = some t → t.isValid = true → t.kept = t → e.updated = some t) ∧ Store.Bared e s s' := by
  obtain ⟨u, hput, hdrop⟩ := h
  obtain ⟨hdiffer, hsame⟩ := Store.differAt_deleteChunks hdrop
  obtain ⟨e', he', hsource, hmade⟩ := Store.document_put_self hs hput hold hcreated
  obtain rfl : e' = e := Except.ok.inj (he'.symm.trans (hsame.symm.trans he))
  have hid : e'.id = d.id := congrArg Source.id hsource
  obtain ⟨u', hu', hin⟩ := Store.put_outcome hs now d
  cases hu'.symm.trans hput
  refine ⟨?_, fun ht hvalid hkept => Store.updated_put hput he' ht hvalid hkept, ?_, ?_, fun id hne => ?_, ?_⟩
  · obtain ⟨id, category, title, content, path, created, updated⟩ := e'
    cases hsource
    rw [hcreated, ← hmade]
  · rwa [hid]
  · rw [hid]
    exact Store.chunksOf_deleteChunks hdrop
  · rw [hid] at hne
    rw [hdiffer.document_eq hne, hdiffer.chunksOf_eq hne, (Store.chunks_put hput).2]
    exact ⟨hin.others id hne, rfl⟩
  · exact (Store.sameLogs_put hput).trans (Store.sameLogs_deleteChunks hdrop)

/-- A document has a new content and nothing else in the base has changed but its time, its chunks and its file. -/
structure InPlace (d : Document) (content : String) (b : Base) (d' : Document) (b' : Base) : Prop where
  document : d' = { d with content := content, updated := d'.updated }
  updated : (Time.ofUnixMicros b.clock).isValid = true → d'.updated = some (Time.ofUnixMicros b.clock)
  store : Store.Bared d' b.store b'.store
  written : b'.files.node? (Path.ofText d.path).place = some (.file (.text content))
  files : ∀ place, place ≠ (Path.ofText d.path).place → ∀ c,
    b'.files.node? place = some (.file c) ↔ b.files.node? place = some (.file c)
  directories : ∀ place, b.files.node? place = some .directory → b'.files.node? place = some .directory

/-- A document under names that are kept as they are, and with the path that a file of these names has. -/
structure AtHome (base : Path) (d : Document) : Prop where
  category : Text.strip d.category = d.category
  title : Text.strip d.title = d.title
  path : d.path = (pathOf base d.category d.title).text

/-- The names of a file that lies in a directory next to others, both without blanks around. -/
def TwoDown (names : List String) : Prop :=
  ∃ c t, names = [c, t ++ suffix] ∧ Text.strip c = c ∧ Text.strip t = t ∧ t ≠ ""

section
variable {base : Path} {b b' : Base} {d d' : Document} {content : String}

theorem AtHome.target_eq (h : AtHome base d) : target base d.category d.title = pathOf base d.category d.title := by
  rw [target, h.category, h.title]

theorem AtHome.renewed_eq (h : AtHome base d) (content : String) (now : Time) :
    renewed base d d.category d.title content now = { d with content := content, updated := some now } := by
  rw [renewed, h.category, h.title, h.target_eq, ← h.path]

/-- A file is not moved to where it is. -/
theorem runOn_moveFile_same (base p : Path) (b : Base) : runOn (moveFile base p p) b = (.ok (), b) := by
  simp [moveFile]

theorem AtHome.path_eq (h : AtHome base d) (hn : (target base d.category d.title).Normal) :
    Path.ofText d.path = target base d.category d.title := by
  rw [h.path, h.target_eq, Path.ofText_text (h.target_eq ▸ hn)]

/-- A file that is where it belongs does not move. -/
theorem relocated_same_iff {p : Path} {c : Base} (hp : Path.ofText d.path = p) : Relocated base d p b c ↔ c = b := by
  rw [Relocated, hp, runOn_moveFile_same]
  split
  · rfl
  · exact ⟨fun h => (Prod.mk.inj h).2.symm, fun h => h ▸ rfl⟩

/-- A document at home is rewritten in its place. -/
theorem AtHome.in_place (hb : base.Normal) (hs : b.store.Sound) (hf : b.files.Sound) (hhome : AtHome base d)
    (hd : (Store.document d.id b.store).outcome = .ok d)
    (h : runOn (update base d.id d.category d.title content) b = (.ok d', b')) : InPlace d content b d' b' := by
  obtain ⟨old, hid, hrenewing⟩ := update_ok hs h
  obtain rfl : old = d := Except.ok.inj ((hid ▸ hrenewing.read).symm.trans hd)
  obtain ⟨-, hcn, -⟩ := validName_ok hrenewing.named
  obtain ⟨-, htn, -⟩ := validName_ok hrenewing.titled
  have hnormal : (target base old.category old.title).Normal := pathOf_normal hb hcn htn
  have hpath := hhome.path_eq hnormal
  obtain ⟨es, t, c, hmake, hmove, hwrite, -, hput⟩ := hrenewing.done
  obtain rfl := (relocated_same_iff hpath).1 hmove
  obtain ⟨hgrown, -⟩ := Tree.makeDirectories_grown hf hnormal.parent hmake
  have hwritten := Tree.write_ok hgrown.sound hnormal hwrite
  obtain ⟨hdocument, hupdated, hbared⟩ := hput.bared (t := Time.ofUnixMicros b.clock) hs hd rfl hrenewing.given
  have hsame : d' = { old with content := content, updated := d'.updated } :=
    hdocument.trans (by simp only [hhome.renewed_eq])
  refine ⟨hsame, fun hvalid => hupdated rfl hvalid ?_, hbared, ?_, fun place hne k => ?_, fun place hdir => ?_⟩
  · exact Time.kept_eq_self_iff.2 fun o ho => .inl (Option.some.inj ho).symm
  · rw [hpath, hwritten.node, if_pos rfl]
  · rw [hpath] at hne
    rw [hwritten.node, if_neg hne]
    exact ⟨hgrown.files place k, hgrown.kept place _⟩
  · have hdir' := hgrown.kept place _ hdir
    have hne : place ≠ (target base old.category old.title).place := fun he => hwritten.notDirectory (he ▸ hdir')
    rw [hwritten.node, if_neg hne, hdir']

/-- A document that is rewritten has the names and the path of its new place. -/
theorem source_of_update (hb : base.Normal) (hs : b.store.Sound) {id category title : String}
    (h : runOn (update base id category title content) b = (.ok d', b')) :
    d'.source = sourceAt base id category title content := by
  obtain ⟨old, rfl, hrenewing⟩ := update_ok hs h
  obtain ⟨-, hcn, -⟩ := validName_ok hrenewing.named
  obtain ⟨-, htn, -⟩ := validName_ok hrenewing.titled
  obtain ⟨es, t, c, -, hmove, -, -, hput⟩ := hrenewing.done
  have hstore : c.store = b.store := (hmove.moves (pathOf_normal hb hcn htn)).store
  obtain ⟨hsound, hsources⟩ := PutBare.sources (hstore.symm ▸ hs) hput
  obtain ⟨hgiven, hid⟩ := Store.document_outcome hsound hrenewing.given
  exact Store.eq_of_mem_sources hsound hgiven ((hsources _).2 (.inl rfl)) hid

/-- A document that is rewritten in its place is at home. -/
theorem InPlace.atHome (hb : base.Normal) (hs : b.store.Sound)
    (h : runOn (update base d.id d.category d.title content) b = (.ok d', b')) (hin : InPlace d content b d' b') :
    AtHome base d := by
  have hsource := source_of_update hb hs h
  rw [hin.document] at hsource
  have hcategory : d.category = Text.strip d.category := congrArg Source.category hsource
  have htitle : d.title = Text.strip d.title := congrArg Source.title hsource
  have hpath : d.path = (target base d.category d.title).text := congrArg Source.path hsource
  refine ⟨hcategory.symm, htitle.symm, ?_⟩
  rwa [target, ← hcategory, ← htitle] at hpath

theorem entryOf_names {names : List String} (hn : ∀ n ∈ names, ProperName n) :
    Path.IsName (entryOf names).1 ∧ '/' ∉ (entryOf names).2.toList := by
  constructor
  · have hplain : Path.IsName uncategorized := ⟨by decide, by decide, by decide⟩
    rcases names with _ | ⟨n, _ | ⟨m, rest⟩⟩
    · exact hplain
    · exact hplain
    · exact (hn n List.mem_cons_self).isName
  · intro hslash
    have hlast : '/' ∈ (names.getLastD "").toList := Path.mem_of_mem_stemOf hslash
    rcases List.eq_nil_or_concat names with rfl | ⟨front, n, rfl⟩
    · cases hlast
    · rw [List.concat_eq_append, List.getLastD_concat] at hlast
      exact (hn n (by simp)).isName.2.2 hlast

/-- Below the base directory, the documents at home are those whose files lie two names down. -/
theorem atHome_iff_twoDown (hb : base.Normal) {names : List String} (hn : ∀ n ∈ names, ProperName n)
    (hpath : d.path = (fileAt base names).text) (hentry : (d.category, d.title) = entryOf names) :
    AtHome base d ↔ TwoDown names := by
  constructor
  · intro h
    obtain ⟨hcategory, htitle⟩ := entryOf_names hn
    rw [← hentry] at hcategory htitle
    have hfile := (isName_suffix htitle).1
    have hnormal : (fileAt base [d.category, d.title ++ suffix]).Normal := by
      refine ⟨hb.slashes, fun n hm => (List.mem_append.1 hm).elim (hb.names n) fun hm => ?_⟩
      rcases List.mem_cons.1 hm with rfl | hm
      · exact hcategory
      · exact List.mem_singleton.1 hm ▸ hfile
    have htext : (fileAt base names).text = (fileAt base [d.category, d.title ++ suffix]).text := by
      rw [← hpath, h.path, pathOf_eq]
    have hsame := Path.text_inj (fileAt_normal hb hn) hnormal htext
    have hnames : names = [d.category, d.title ++ suffix] := List.append_cancel_left (congrArg Path.names hsame)
    refine ⟨d.category, d.title, hnames, h.category, h.title, fun he => ?_⟩
    -- a file that is named by the suffix alone keeps it in its title
    rw [hnames, he] at hentry
    have htitled : "" = Path.stemOf suffix := by simpa [entryOf] using congrArg Prod.snd hentry
    exact absurd htitled (by decide)
  · rintro ⟨c, t, rfl, hc, ht, hne⟩
    have hc' : d.category = c := congrArg Prod.fst hentry
    have ht' : d.title = t := (congrArg Prod.snd hentry).trans (stemOf_suffix hne)
    refine ⟨by rw [hc', hc], by rw [ht', ht], ?_⟩
    rw [hpath, hc', ht', pathOf_eq]

/-- The directories above a place that is there need not be made. -/
theorem makeDirectories_target {t : Tree} {category title : String} {place : Place}
    (hn : (target base category title).hasNul = false) (hl : t.locate (target base category title) = .ok place) :
    t.makeDirectories (target base category title).parent = .ok t := by
  have hparent : (target base category title).parent = base.child (Text.strip category) := by
    simp [target, pathOf, Path.parent, Path.child]
  have hn' : (target base category title).parent.hasNul = false := by
    by_contra he
    simp [Path.hasNul_of_parent (by simpa using he)] at hn
  have hway : t.locate ((base.child (Text.strip category)).child (Text.strip title ++ suffix)) = .ok place := hl
  rw [hparent] at hn' ⊢
  exact Tree.makeDirectories_way hn' (List.cons_ne_nil _ _) hway

/-- Once the file is where it belongs, nothing but writing it can fail. -/
theorem rewriteAt_total (hs : b.store.Sound) (hopen : b.refusals.reading d.id = false) {category title : String}
    {u : Tree} (hwrite : b.files.write (target base category title) content = .ok u) :
    ∃ d' b', runOn (rewriteAt base d category title content) b = (.ok d', b') := by
  obtain ⟨d', b', hchange, -⟩ := runOn_change (b := { b with files := u })
    (x := sourceAt base d.id category title content) hs d.id hopen
    (fun now => renewed base d category title content now) rfl (fun _ => rfl) "Updated knowledge item"
    [("id", .text d.id), ("title", .text (Text.strip title)), ("category", .text (Text.strip category))]
  refine ⟨d', b', runOn_bind_ok.2 ⟨(), _, ?_, hchange⟩⟩
  rw [Action.runOn_writeFiles, hwrite]

/-- A document at home under allowed names is rewritten without fail as long as its file is there. -/
theorem AtHome.rewritten (hb : base.Normal) (hs : b.store.Sound) (hhome : AtHome base d)
    (hd : (Store.document d.id b.store).outcome = .ok d) (hopen : b.refusals.reading d.id = false) {c t : String}
    (hc : validName "category" d.category = .ok c) (ht : validName "title" d.title = .ok t) {k : Content}
    (hfile : b.files.look (Path.ofText d.path) = .ok (some (.file k))) (content : String) :
    ∃ d' b', runOn (update base d.id d.category d.title content) b = (.ok d', b') := by
  obtain ⟨rfl, hcn, -⟩ := validName_ok hc
  obtain ⟨rfl, htn, -⟩ := validName_ok ht
  have hpath := hhome.path_eq (pathOf_normal hb hcn htn)
  obtain ⟨hnul, hfind⟩ := Tree.look_eq_some hfile
  obtain ⟨hl, hnode⟩ := Tree.find_eq_ok.1 hfind
  rw [hpath] at hnul hl hnode
  obtain ⟨es, hread⟩ := Action.runOn_document_admitted (b := b) hopen
  rw [hd] at hread
  obtain ⟨u, hwrite⟩ := Tree.write_total hnul hl (by simp [hnode]) content
  obtain ⟨d', b', hrest⟩ := rewriteAt_total (b := b.noting es) hs hopen hwrite
  exact ⟨d', b', update_of_steps hc ht hread (makeDirectories_target hnul hl)
    ((relocated_same_iff hpath).2 rfl) hrest⟩

end

/-- However a knowledge base has come about, a document that is rewritten under its own category and title goes to the
path of the two, and stays in its place exactly if it is at home; then, under allowed names and with its file there, it
is rewritten without fail. The documents come from files below the directories that were scanned, and one from below the
base directory is at home exactly if its file lies two names down. -/
theorem rewritten_in_place_iff {text : String} {others : List String} {b : Base} (h : Reached text others b)
    {d : Document} (hd : (Store.document d.id b.store).outcome = .ok d) (content : String) :
    let base := Path.ofText text
    let rewriting := runOn (update base d.id d.category d.title content) b
    (∀ d' b', rewriting = (.ok d', b') →
      d'.path = (target base d.category d.title).text ∧ (InPlace d content b d' b' ↔ AtHome base d)) ∧
    (AtHome base d → validName "category" d.category = .ok d.category → validName "title" d.title = .ok d.title →
      b.refusals.reading d.id = false → (∃ k, b.files.look (Path.ofText d.path) = .ok (some (.file k))) →
        ∃ d' b', rewriting = (.ok d', b') ∧ InPlace d content b d' b') ∧
    ∃ root ∈ rootsOf text others, ∃ names, names ≠ [] ∧ (∀ n ∈ names, ProperName n) ∧
      d.path = (fileAt root names).text ∧ (d.category, d.title) = entryOf names ∧
        (root = base → (AtHome base d ↔ TwoDown names)) := by
  intro base rewriting
  have hb : base.Normal := Path.ofText_normal text
  obtain ⟨hs, hf, hadopted⟩ := h.adopting
  refine ⟨fun d' b' hrun => ⟨congrArg Source.path (source_of_update hb hs hrun), ?_⟩, ?_, ?_⟩
  · exact ⟨fun hin => hin.atHome hb hs hrun, fun hhome => hhome.in_place hb hs hf hd hrun⟩
  · rintro hhome hc ht hopen ⟨k, hfile⟩
    obtain ⟨d', b', hrun⟩ := hhome.rewritten hb hs hd hopen hc ht hfile content
    exact ⟨d', b', hrun, hhome.in_place hb hs hf hd hrun⟩
  · obtain ⟨root, hroot, names, hne, hproper, hpath, hentry⟩ := hadopted d.source (Store.document_outcome hs hd).1
    refine ⟨root, hroot, names, hne, hproper, hpath, hentry, ?_⟩
    rintro rfl
    exact atHome_iff_twoDown hb hproper hpath hentry

/-- A document that was created has the path of its category and title, so it is rewritten in place. -/
theorem rewritten_in_place_iff_made :
    let b : Base := (runOn (create (Path.ofText "kb") "X" "a" "1") {}).2
    Reached "kb" [] b ∧ ∃ d, (Store.document d.id b.store).outcome = .ok d ∧ d.path = "kb/X/a.md" ∧
      ∃ d' b', runOn (update (Path.ofText "kb") d.id d.category d.title "2") b = (.ok d', b') ∧
        InPlace d "2" b d' b' := by
  intro b
  have hempty : Tree.Sound {} := ⟨List.nodup_nil, List.forall_mem_nil _, List.forall_mem_nil _⟩
  have hreached : Reached "kb" [] b := .create (.new .memory hempty) "X" "a" "1"
  have hstored : (Store.document "id-0001" b.store).outcome.toOption.map Document.source =
      some ⟨"id-0001", "X", "a", "1", "kb/X/a.md"⟩ := by decide +kernel
  have hthere : (b.files.look (Path.ofText "kb/X/a.md")).toOption.map id = some (some (.file (.text "1"))) := by
    decide +kernel
  have hadmitted : b.refusals.reading "id-0001" = false := by decide +kernel
  obtain ⟨d, hread, hsource⟩ := exists_of_toOption hstored
  obtain ⟨found, hfile, rfl⟩ := exists_of_toOption hthere
  have hid : d.id = "id-0001" := congrArg Source.id hsource
  have hcategory : d.category = "X" := congrArg Source.category hsource
  have htitle : d.title = "a" := congrArg Source.title hsource
  have hpath : d.path = "kb/X/a.md" := congrArg Source.path hsource
  have hhome : AtHome (Path.ofText "kb") d := by
    refine ⟨?_, ?_, ?_⟩ <;> simp only [hcategory, htitle, hpath] <;> decide
  have hd : (Store.document d.id b.store).outcome = .ok d := hid.symm ▸ hread
  have hopen : b.refusals.reading d.id = false := hid.symm ▸ hadmitted
  have hc : validName "category" d.category = .ok d.category := hcategory.symm ▸ rfl
  have ht : validName "title" d.title = .ok d.title := htitle.symm ▸ rfl
  exact ⟨hreached, d, hd, hpath,
    (rewritten_in_place_iff hreached hd "2").2.1 hhome hc ht hopen ⟨_, hpath.symm ▸ hfile⟩⟩

/-- A file that lies in the base directory itself moves to a directory of its own, under the names that it has. -/
theorem update_moves_a_file_of_the_base_directory :
    let start : Base := { files := ⟨[(["kb"], .directory), (["kb", "a.md"], .file (.text "x"))]⟩ }
    let b : Base := (runOn (scan (Path.ofText "kb")) start).2
    let rewriting := runOn (update (Path.ofText "kb") "id-0001" "uncategorized" "a" "y") b
    ((Store.document "id-0001" b.store).outcome.toOption.map fun d => (d.category, d.title, d.path)) =
        some ("uncategorized", "a", "kb/a.md") ∧
      rewriting.1.toOption.map Document.path = some "kb/uncategorized/a.md" ∧
      rewriting.2.files.node? ["kb", "a.md"] = none ∧
      rewriting.2.files.node? ["kb", "uncategorized", "a.md"] = some (.file (.text "y")) := by
  decide +kernel

end Catalog

end Compendium
