import Compendium.Proofs.Catalog.Mirroring
import Compendium.Proofs.Store.Putting

/-!
What a scan reports, file by file. A file decides about the document with its path and about no other, so the files
can be looked at one after the other, and once they were there is nothing left to report.
-/
namespace Compendium.Catalog

open Compendium.Action (runOn runOn_bind runOn_bind_ok)

/-- A sound store in which documents have paths of their own, and ids that will not be given out again. -/
structure Settled (b : Base) : Prop where
  sound : b.store.Sound
  paths : b.store.PathsDiffer
  fresh : ∀ x ∈ b.store.sources, ∀ n, b.issued < n → Action.idText n ≠ x.id

/-- A file that can be read and says something else than the document with its path, if there is one. -/
def News (root : Path) (t : Tree) (s : Store) (names : List String) : Prop :=
  ∃ content, t.read (fileAt root names) = .ok content ∧
    ∀ x ∈ s.sources, x.path = (fileAt root names).text →
      (x.content, x.category, x.title) ≠ (content, entryOf names)

/-- An id that is reported for a file: the document now says what the file says; it had the file's path before, or it is
new and no document had that path. -/
def Told (root : Path) (b b' : Base) (names : List String) (id : String) : Prop :=
  ∃ x ∈ b'.store.sources, x.id = id ∧ FromFile root b.files names x ∧
    ((∃ y ∈ b.store.sources, y.id = id ∧ y.path = x.path) ∨ ∀ y ∈ b.store.sources, y.path ≠ x.path ∧
      y.id ≠ id)

/-- What a scan makes of some files: every file that can be read has its document; what is reported are the documents
of the files with news, in the order of the files; other documents are left alone, and none loses its path or the time
at which it was made. -/
structure Synced (root : Path) (files : List (List String)) (b : Base) (changed : List String) (b' : Base) : Prop where
  steady : b.Steady b'
  settled : Settled b'
  elsewhere : ∀ y, (∀ names ∈ files, y.path ≠ (fileAt root names).text) →
    (y ∈ b'.store.sources ↔ y ∈ b.store.sources)
  present : ∀ names ∈ files, ∀ content, b.files.read (fileAt root names) = .ok content →
    ∃ x ∈ b'.store.sources, FromFile root b.files names x
  report : ∃ news, news.Sublist files ∧
    (∀ names ∈ files, names ∈ news ↔ News root b.files b.store names) ∧
    List.Forall₂ (Told root b b') news changed
  others : ∀ id, id ∉ changed → SameDocument id b b'
  kept : ∀ id d, (Store.document id b.store).outcome = .ok d →
    ∃ d', (Store.document id b'.store).outcome = .ok d' ∧
    d'.created = d.created ∧ d'.path = d.path
  idle : changed = [] → b'.store = b.store

section
variable {root : Path} {names : List String} {files files' : List (List String)} {b c d : Base}
  {first second : List String}

/-- A file whose document says what it says has no news. -/
theorem no_news {t : Tree} {s : Store}
    (h : ∀ content, t.read (fileAt root names) = .ok content → ∃ x ∈ s.sources, FromFile root t names x) :
    ¬News root t s names := by
  rintro ⟨content, hread, hdiffers⟩
  obtain ⟨x, hx, hfile⟩ := h content hread
  refine hdiffers x hx hfile.path ?_
  rw [← hfile.entry, Except.ok.inj (hread.symm.trans hfile.content)]

/-- A scan that finds nothing leaves everything as it is. -/
theorem Synced.nothing (hb : Settled b) (hc : b.Steady c) (hstore : c.store = b.store)
    (hpresent : ∀ names ∈ files, ∀ content, b.files.read (fileAt root names) = .ok content →
      ∃ x ∈ b.store.sources, FromFile root b.files names x) : Synced root files b [] c where
  steady := hc
  settled :=
    { sound := hstore ▸ hb.sound
      paths := hstore ▸ hb.paths
      fresh := fun x hx n hn => hb.fresh x (hstore ▸ hx) n (Nat.lt_of_le_of_lt hc.issued hn) }
  elsewhere y _ := by rw [hstore]
  present := hstore ▸ hpresent
  report := ⟨[], List.nil_sublist _, fun names hn =>
    iff_of_false List.not_mem_nil (no_news (hpresent names hn)), .nil⟩
  others id _ := by rw [SameDocument, hstore]
  kept id d hd := ⟨d, hstore ▸ hd, rfl, rfl⟩
  idle _ := hstore

/-- A document whose file is scanned keeps its path and the time at which it was made. -/
theorem scanFile_kept (hb : Settled b) {path : Path} {category title content : String} {r : Option String}
    (hrun : runOn (scanFile path category title content) b = (.ok r, c)) {x : Source} (hx : x ∈ b.store.sources)
    (hpath : x.path = path.text) {d : Document} (hd : (Store.document x.id b.store).outcome = .ok d) :
    ∃ d', (Store.document x.id c.store).outcome = .ok d' ∧ d'.created = d.created ∧ d'.path = d.path := by
  rcases Store.atPath_outcome hb.sound path.text with ⟨-, hfree⟩ | ⟨e, hfound, he, hp⟩
  · exact absurd hpath (hfree x hx)
  · have hid : e.id = x.id := hb.paths _ he x hx (hp.trans hpath.symm)
    have hsame : (Store.document e.id b.store).outcome = .ok e := Store.document_of_atPath hb.sound hfound
    rw [← hid] at hd ⊢
    obtain rfl : e = d := Except.ok.inj (hsame.symm.trans hd)
    obtain ⟨s, hput, -⟩ := Store.put_outcome hb.sound (Time.ofUnixMicros b.clock)
      { e with
        category := category, title := title, content := content
        updated := some (Time.ofUnixMicros b.clock) }
    obtain ⟨e', he', hsource, hcreated⟩ := Store.document_put_self hb.sound hput hsame rfl
    simp only [scanFile, runOn_bind, Action.runOn_readStore, hfound] at hrun
    split at hrun
    · cases hrun
      exact ⟨e, hsame, rfl, rfl⟩
    · simp only [runOn_bind, Action.runOn_now, Action.putDocument, Action.runOn_writeStore, Base.noting_clock,
        Base.noting_store, hput] at hrun
      cases hrun
      exact ⟨e', he', hcreated, congrArg Source.path hsource⟩

/-- A document that is put in place for a file with news is what the scan of that file makes of it. -/
theorem Synced.of_put (hb : Settled b) (hc : b.Steady c) {x : Source} (hput : Store.PutIn x b.store c.store)
    (hfile : FromFile root b.files names x) (hnews : News root b.files b.store names)
    (hown : ∀ y ∈ b.store.sources, y.path = x.path ↔ y.id = x.id)
    (hfresh : ∀ n, c.issued < n → Action.idText n ≠ x.id)
    (hkept : ∀ d, (Store.document x.id b.store).outcome = .ok d →
      ∃ d', (Store.document x.id c.store).outcome = .ok d' ∧ d'.created = d.created ∧ d'.path = d.path) :
    Synced root [names] b [x.id] c where
  steady := hc
  settled := by
    refine ⟨hput.sound, ?_, fun y hy n hn => ?_⟩
    · exact (Store.pathsDiffer_iff hput.mem_sources hb.paths).2 fun y hy hne he => hne ((hown y hy).1 he)
    · rcases (hput.mem_sources y).1 hy with rfl | ⟨hy, -⟩
      · exact hfresh n hn
      · exact hb.fresh y hy n (Nat.lt_of_le_of_lt hc.issued hn)
  elsewhere y hy := by
    have hpath : y.path ≠ x.path := hfile.path ▸ hy names List.mem_cons_self
    have hne : y ≠ x := fun he => hpath (congrArg Source.path he)
    rw [hput.mem_sources y, or_iff_right hne, and_iff_left_of_imp]
    exact fun hy he => hpath ((hown y hy).2 he)
  present names' hn _ _ := by
    rw [List.mem_singleton.1 hn]
    exact ⟨x, (hput.mem_sources x).2 (.inl rfl), hfile⟩
  report := by
    refine ⟨[names], List.Sublist.refl _, fun n hn => iff_of_true hn (List.mem_singleton.1 hn ▸ hnews),
      .cons ?_ .nil⟩
    refine ⟨x, (hput.mem_sources x).2 (.inl rfl), rfl, hfile, ?_⟩
    by_cases hold : ∃ y ∈ b.store.sources, y.path = x.path
    · obtain ⟨y, hy, he⟩ := hold
      exact .inl ⟨y, hy, (hown y hy).1 he, he⟩
    · exact .inr fun y hy => ⟨fun he => hold ⟨y, hy, he⟩, fun he => hold ⟨y, hy, (hown y hy).2 he⟩⟩
  others id hid := hput.others id fun he => hid (he ▸ List.mem_cons_self)
  kept id d hd := by
    by_cases he : id = x.id
    · subst he
      exact hkept d hd
    · exact ⟨d, (hput.others id he).trans hd, rfl, rfl⟩
  idle h := absurd h (List.cons_ne_nil _ _)

/-- A file that can be read is compared with the document with its path. -/
theorem synced_scanFile (hb : Settled b) {content : String} (hread : b.files.read (fileAt root names) = .ok content) :
    ∃ r c, runOn (scanFile (fileAt root names) (entryOf names).1 (entryOf names).2 content) b = (.ok r, c) ∧
      Synced root [names] b r.toList c := by
  obtain ⟨r, c, hrun, hsteady, hvisit⟩ :=
    runOn_scanFile hb.sound (fileAt root names) (entryOf names).1 (entryOf names).2 content
  refine ⟨r, c, hrun, ?_⟩
  have hequal (x : Source) : (x.content, x.category, x.title) = (content, entryOf names) ↔
      x.content = content ∧ x.category = (entryOf names).1 ∧ x.title = (entryOf names).2 := by simp [Prod.ext_iff]
  cases hvisit with
  | same x found at_ equal store issued =>
    refine Synced.nothing hb hsteady store fun names' hn content' hread' => ?_
    rw [List.mem_singleton.1 hn] at hread' ⊢
    obtain rfl := Except.ok.inj (hread.symm.trans hread')
    exact ⟨x, found, at_, equal.1 ▸ hread, Prod.ext equal.2.1 equal.2.2⟩
  | added free put issued =>
    refine Synced.of_put hb hsteady put ⟨rfl, hread, rfl⟩ ⟨content, hread, fun x hx he => absurd he (free x hx)⟩
      (fun y hy => iff_of_false (free y hy) fun he => ?_) (fun n hn he => ?_) fun d hd => ?_
    · exact hb.fresh y hy (b.issued + 1) (Nat.lt_succ_self _) he.symm
    · have := Action.idText_inj he
      omega
    · obtain ⟨hd, hid⟩ := Store.document_outcome hb.sound hd
      exact absurd hid.symm (hb.fresh _ hd (b.issued + 1) (Nat.lt_succ_self _))
  | changed x found at_ differs put issued =>
    have hown (y : Source) (hy : y ∈ b.store.sources) : y.path = (fileAt root names).text ↔ y.id = x.id :=
      ⟨fun he => hb.paths y hy x found (he.trans at_.symm),
        fun he => Store.eq_of_mem_sources hb.sound hy found he ▸ at_⟩
    refine Synced.of_put (x := ⟨x.id, _, _, content, _⟩) hb hsteady put ⟨rfl, hread, rfl⟩
      ⟨content, hread, fun y hy he => ?_⟩ hown (fun n hn => ?_) fun d hd => scanFile_kept hb hrun found at_ hd
    · rw [Store.eq_of_mem_sources hb.sound hy found ((hown y hy).1 he), Ne, hequal]
      exact differs
    · exact hb.fresh x found n (issued ▸ hn)

/-- Files whose paths differ are scanned one after the other. -/
theorem Synced.trans (hb : Settled b) (h : Synced root files b first c) (h' : Synced root files' c second d)
    (hapart : ∀ m ∈ files, ∀ n ∈ files', (fileAt root m).text ≠ (fileAt root n).text) :
    Synced root (files ++ files') b (first ++ second) d := by
  have hlater {m : List String} (hm : m ∈ files) {x : Source} (hx : x.path = (fileAt root m).text) :
      x ∈ d.store.sources ↔ x ∈ c.store.sources := h'.elsewhere x fun n hn => hx ▸ hapart m hm n hn
  have hearlier {n : List String} (hn : n ∈ files') {x : Source} (hx : x.path = (fileAt root n).text) :
      x ∈ c.store.sources ↔ x ∈ b.store.sources := h.elsewhere x fun m hm => hx ▸ (hapart m hm n hn).symm
  have hfiles : c.files = b.files := h.steady.files
  refine ⟨h.steady.trans h'.steady, h'.settled, fun y hy => ?_, fun names hn content hread => ?_, ?_,
    fun id hid => ?_, fun id e he => ?_, fun hnone => ?_⟩
  · rw [h'.elsewhere y fun n hn => hy n (List.mem_append_right _ hn),
      h.elsewhere y fun m hm => hy m (List.mem_append_left _ hm)]
  · rcases List.mem_append.1 hn with hn | hn
    · obtain ⟨x, hx, hfile⟩ := h.present names hn content hread
      exact ⟨x, (hlater hn hfile.path).2 hx, hfile⟩
    · exact hfiles ▸ h'.present names hn content (hfiles ▸ hread)
  · obtain ⟨news, hsub, hnews, htold⟩ := h.report
    obtain ⟨news', hsub', hnews', htold'⟩ := h'.report
    have hsame {n : List String} (hn : n ∈ files') :
        News root c.files c.store n ↔ News root b.files b.store n := by
      rw [hfiles]
      refine exists_congr fun content => and_congr_right fun _ => forall_congr' fun x => ?_
      constructor
      · exact fun hx hmem hp => hx ((hearlier hn hp).2 hmem) hp
      · exact fun hx hmem hp => hx ((hearlier hn hp).1 hmem) hp
    have hnot {n : List String} (hn : n ∈ files) (hn' : n ∈ files') : False := hapart n hn n hn' rfl
    refine ⟨news ++ news', hsub.append hsub', fun n hn => ?_, List.rel_append ?_ ?_⟩
    · rw [List.mem_append]
      rcases List.mem_append.1 hn with hn | hn
      · rw [or_iff_left fun hm => hnot hn (hsub'.subset hm), hnews n hn]
      · rw [or_iff_right fun hm => hnot (hsub.subset hm) hn, hnews' n hn, hsame hn]
    · refine ((List.forall₂_and_left _ _).2 ⟨fun n hn => hsub.subset hn, htold⟩).imp fun n id hn => ?_
      obtain ⟨hn, x, hx, hid, hfile, horigin⟩ := hn
      exact ⟨x, (hlater hn hfile.path).2 hx, hid, hfile, horigin⟩
    · refine ((List.forall₂_and_left _ _).2 ⟨fun n hn => hsub'.subset hn, htold'⟩).imp fun n id hn => ?_
      obtain ⟨hn, x, hx, hid, hfile, horigin⟩ := hn
      refine ⟨x, hx, hid, hfiles ▸ hfile, ?_⟩
      rcases horigin with ⟨y, hy, he, hp⟩ | hnew
      · exact .inl ⟨y, (hearlier hn (hp.trans hfile.path)).1 hy, he, hp⟩
      · refine .inr fun y hy => ⟨fun hp => ?_, fun he => ?_⟩
        · exact (hnew y ((hearlier hn (hp.trans hfile.path)).2 hy)).1 hp
        · obtain ⟨e, hdoc, -⟩ := Store.document_of_mem hb.sound hy
          obtain ⟨e', hdoc', -⟩ := h.kept y.id e hdoc
          obtain ⟨hmem, hid'⟩ := Store.document_outcome h.settled.sound hdoc'
          exact (hnew e'.source hmem).2 (hid'.trans he)
  · rw [List.mem_append, not_or] at hid
    exact (h.others id hid.1).trans (h'.others id hid.2)
  · obtain ⟨e', he', hcreated, hpath⟩ := h.kept id e he
    obtain ⟨e'', he'', hcreated', hpath'⟩ := h'.kept id e' he'
    exact ⟨e'', he'', hcreated'.trans hcreated, hpath'.trans hpath⟩
  · obtain ⟨hfirst, hsecond⟩ := List.append_eq_nil_iff.1 hnone
    exact (h'.idle hsecond).trans (h.idle hfirst)

/-- Files are scanned in their order, whatever can be read of them. -/
theorem synced_scanFiles (hnul : ∀ names ∈ files, (fileAt root names).hasNul = false) (hapart : Apart root files)
    {b : Base} (hb : Settled b) : ∃ changed c, runOn (scanFiles root files) b = (.ok changed, c) ∧
      Synced root files b changed c := by
  induction files generalizing b with
  | nil => exact ⟨[], b, rfl, Synced.nothing hb (Base.Steady.refl b) rfl nofun⟩
  | cons names rest ih =>
    rw [List.forall_mem_cons] at hnul
    obtain ⟨hhead, hrest⟩ := List.pairwise_cons.1 hapart
    have hfirst : ∀ m ∈ [names], ∀ n ∈ rest, (fileAt root m).text ≠ (fileAt root n).text := fun m hm n hn =>
      List.mem_singleton.1 hm ▸ hhead n hn
    cases hread : b.files.read (fileAt root names) with
    | ok content =>
      obtain ⟨r, c, hrun, hone⟩ := synced_scanFile hb hread
      obtain ⟨more, d, hmore, hlater⟩ := ih hnul.2 hrest hone.settled
      exact ⟨r.toList ++ more, d, scanFiles_visit (runOn_readFile_text hread) hrun hmore,
        hone.trans hb hlater hfirst⟩
    | error e =>
      obtain ⟨r, es, hskip⟩ := runOn_readFile hnul.1 b
      obtain rfl : r = none := by
        cases r with
        | none => rfl
        | some content => cases hread.symm.trans ((runOn_readFile_ok hskip).2 content rfl)
      have hone : Synced root [names] b [] (b.noting es) :=
        Synced.nothing hb (Base.steady_noting b es) rfl fun n hn content hok => by
          rw [List.mem_singleton.1 hn, hread] at hok
          cases hok
      obtain ⟨more, d, hmore, hlater⟩ := ih hnul.2 hrest hone.settled
      exact ⟨more, d, scanFiles_skip hskip hmore, hone.trans hb hlater hfirst⟩

/-- Files with paths of their own are reported under ids of their own. -/
theorem Synced.nodup (h : Synced root files b first c) (hapart : Apart root files) : first.Nodup := by
  obtain ⟨news, hsub, -, htold⟩ := h.report
  rw [List.Nodup, List.pairwise_iff_getElem]
  intro i j hi hj hij he
  have hlen := htold.length_eq
  obtain ⟨x, hx, hid, hfile, -⟩ := htold.get (i := i) (hlen.symm ▸ hi) hi
  obtain ⟨y, hy, hid', hfile', -⟩ := htold.get (i := j) (hlen.symm ▸ hj) hj
  have hne := List.pairwise_iff_getElem.1 (hapart.sublist hsub) i j (hlen.symm ▸ hi) (hlen.symm ▸ hj) hij
  obtain rfl := Store.eq_of_mem_sources h.settled.sound hx hy (hid.trans (he.trans hid'.symm))
  exact hne (hfile.path.symm.trans hfile'.path)

/-- When the same files are scanned again there is nothing to report. -/
theorem Synced.again (h : Synced root files b first c) (h' : Synced root files c second d) : second = [] := by
  obtain ⟨news, hsub, hnews, htold⟩ := h'.report
  have hquiet : ∀ names ∈ files, ¬News root c.files c.store names := fun names hn =>
    no_news (h.steady.files ▸ h.present names hn)
  obtain rfl : news = [] := List.eq_nil_iff_forall_not_mem.2 fun names hn =>
    hquiet names (hsub.subset hn) ((hnews names (hsub.subset hn)).1 hn)
  exact List.forall₂_nil_left_iff.1 htold

/-- A scan makes its root, unless it is there, and then goes through the files below it. -/
theorem synced_scan (hroot : root.Normal) (hb : Settled b) (hf : b.files.Sound) {t : Tree}
    (ht : b.files.makeDirectories root = .ok t) :
    ∃ changed c, runOn (scan root) b = (.ok changed, c) ∧
      Synced root (filesIn root t) { b with files := t } changed c := by
  obtain ⟨hgrown, husable⟩ := Tree.makeDirectories_grown hf hroot ht
  have hnul : ∀ names ∈ filesIn root t, (fileAt root names).hasNul = false :=
    fun names hn => (filesIn_usable husable hgrown.sound names hn).notNul
  have hsettled : Settled { b with files := t } := ⟨hb.sound, hb.paths, hb.fresh⟩
  obtain ⟨changed, c, hrun, h⟩ := synced_scanFiles hnul (filesIn_apart husable hgrown.sound) hsettled
  have hmake : runOn (Action.writeFiles fun t => t.makeDirectories root) b = (.ok (), { b with files := t }) := by
    rw [Action.runOn_writeFiles, ht]
  obtain ⟨es, hlog⟩ := runOn_log .info "scan" "Scanned knowledge base"
    [("path", .text root.text), ("changed", .nat changed.length)] c
  refine ⟨changed, c.noting es, ?_, { h with
    steady := h.steady.trans (Base.steady_noting c es)
    settled := ⟨h.settled.sound, h.settled.paths, h.settled.fresh⟩ }⟩
  exact runOn_bind_ok.2 ⟨(), _, hmake, runOn_bind_ok.2 ⟨_, _, runOn_filesBelow root _,
    runOn_bind_ok.2 ⟨changed, c, hrun, runOn_bind_ok.2 ⟨(), _, hlog, rfl⟩⟩⟩⟩

end

def SameChunkLists (b b' : Base) : Prop :=
  b'.store.chunkIds = b.store.chunkIds ∧ ∀ id, Store.chunksOf id b'.store = Store.chunksOf id b.store

/-- Nothing that a scan does changes a chunk. -/
theorem admits_sameChunkLists : Admits SameChunkLists where
  refl _ := ⟨rfl, fun _ => rfl⟩
  trans h h' := ⟨h'.1.trans h.1, fun id => (h'.2 id).trans (h.2 id)⟩
  noting _ _ := ⟨rfl, fun _ => rfl⟩
  put _ _ _ _ h := Store.chunks_put h
  issue _ := ⟨rfl, fun _ => rfl⟩
  make _ _ := ⟨rfl, fun _ => rfl⟩

/-- A scan finds the Markdown files below its root. -/
theorem mem_filesIn {root : Path} {t t' : Tree} (hs : t'.Sound) (ht : t.makeDirectories root = .ok t')
    (names : List String) : names ∈ filesIn root t' ↔ names ≠ [] ∧ (∀ n ∈ names, ProperName n) ∧
      Tree.isMarkdown (names.getLastD "") = true ∧ ∃ c, t'.node? (root.place ++ names) = some (.file c) := by
  rw [filesIn, (Tree.makeDirectories_located ht).1]
  exact hs.mem_documentsBelow_iff

/-- Files are visited in the order of their names. -/
theorem filesIn_ordered (root : Path) {t : Tree} (hs : t.Sound) : (filesIn root t).Pairwise (· < ·) := by
  rw [filesIn]
  split
  · exact hs.documentsBelow_ordered _
  · exact .nil

/-- A scan goes through the Markdown files below its root in the order of their paths and brings their documents up to
date; it reports those that it added or changed, each once, and leaves everything else alone. A second scan right after
it reports nothing and changes nothing. -/
theorem scan_synchronises (text : String) {b : Base} (hb : Settled b) (hf : b.files.Sound) :
    let root := Path.ofText text
    (∀ e, b.files.makeDirectories root = .error e → runOn (scan root) b = (.error e, b)) ∧
      ∀ t, b.files.makeDirectories root = .ok t →
        b.files.Grown t ∧ (filesIn root t).Pairwise (· < ·) ∧
          (∀ names, names ∈ filesIn root t ↔ names ≠ [] ∧ (∀ n ∈ names, ProperName n) ∧
            Tree.isMarkdown (names.getLastD "") = true ∧ ∃ c, t.node? (root.place ++ names) = some (.file c)) ∧
          ∃ changed c, runOn (scan root) b = (.ok changed, c) ∧
            Synced root (filesIn root t) { b with files := t } changed c ∧ changed.Nodup ∧ SameChunkLists b c ∧
            ∃ d, runOn (scan root) c = (.ok [], d) ∧ d.store = c.store ∧ d.files = c.files := by
  intro root
  have hroot : root.Normal := Path.ofText_normal text
  refine ⟨fun e he => ?_, fun t ht => ?_⟩
  · simp only [scan, runOn_bind, Action.runOn_writeFiles, he]
  · obtain ⟨hgrown, husable⟩ := Tree.makeDirectories_grown hf hroot ht
    obtain ⟨changed, c, hrun, hsynced⟩ := synced_scan hroot hb hf ht
    obtain rfl : t = c.files := hsynced.steady.files.symm
    obtain ⟨changed', d, hrun', hagain⟩ :=
      synced_scan hroot hsynced.settled hgrown.sound (Tree.makeDirectories_again ht)
    obtain rfl := hsynced.again hagain
    refine ⟨hgrown, filesIn_ordered root hgrown.sound, mem_filesIn hgrown.sound ht, changed, c, hrun, hsynced,
      hsynced.nodup (filesIn_apart husable hgrown.sound), ?_, d, hrun', hagain.idle rfl, hagain.steady.files⟩
    exact (leads_scan admits_sameChunkLists root).of_run hrun

def edited : Base where
  issued := 1
  store := .memory
    { documents := [(Action.idText 1, ⟨Action.idText 1, "uncategorized", "a", "old", "kb/a.md", none, none⟩)] }
  files := ⟨[(["kb"], .directory), (["kb", "a.md"], .file (.text "new"))]⟩

theorem edited_settled : Settled edited where
  sound := ⟨by simp, by simp [Keyed.keys]⟩
  paths x hx y hy _ := by rw [List.mem_singleton.1 hx, List.mem_singleton.1 hy]
  fresh x hx n hn he := by
    rw [List.mem_singleton.1 hx] at he
    exact absurd (Action.idText_inj he) (Nat.ne_of_gt hn)

theorem edited_files_sound : edited.files.Sound where
  keys := by
    change [["kb"], ["kb", "a.md"]].Nodup
    decide +kernel
  reachable e he := by
    have hproper : ∀ e ∈ edited.files.nodes, ∀ n ∈ e.1, ProperName n := by decide +kernel
    have hroot : ∀ e ∈ edited.files.nodes, ¬Tree.IsRoot e.1 := by simp [edited, Tree.IsRoot, Tree.top]
    exact ⟨⟨e.1, .inl rfl, hproper e he⟩, hroot e he⟩
  parents := by
    simp only [edited, List.forall_mem_cons]
    exact ⟨rfl, rfl, List.forall_mem_nil _⟩

/-- A file that was edited is reported once; the next scan finds nothing. -/
theorem scan_synchronises_edited :
    ∃ c d, runOn (scan (Path.ofText "kb")) edited = (.ok ["id-0001"], c) ∧
      Synced (Path.ofText "kb") [["a.md"]] edited ["id-0001"] c ∧
      runOn (scan (Path.ofText "kb")) c = (.ok [], d) ∧ d.store = c.store := by
  have hmake : edited.files.makeDirectories (Path.ofText "kb") = .ok edited.files := by
    have hnul : (Path.ofText "kb").hasNul = false := by decide +kernel
    have hlocate : edited.files.locate (Path.ofText "kb") = .ok ["kb"] := rfl
    rw [Tree.makeDirectories, hnul, if_neg Bool.false_ne_true, Tree.ensure, Tree.ensureOne_of_directory hlocate rfl]
  obtain ⟨-, -, -, changed, c, hrun, hsynced, -, -, d, hagain, hstore, -⟩ :=
    (scan_synchronises "kb" edited_settled edited_files_sound).2 edited.files hmake
  have hfiles : filesIn (Path.ofText "kb") edited.files = [["a.md"]] := by decide +kernel
  have hids : (runOn (scan (Path.ofText "kb")) edited).1.toOption = some ["id-0001"] := by decide +kernel
  rw [hrun] at hids
  obtain rfl : changed = ["id-0001"] := Option.some.inj hids
  exact ⟨c, d, hrun, hfiles ▸ hsynced, hagain, hstore⟩

end Compendium.Catalog
