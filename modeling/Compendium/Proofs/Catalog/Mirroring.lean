import Compendium.Proofs.Catalog.Items
import Compendium.Proofs.Files.Reading

/-!
A document and its file after either was written. What the store holds is the text as it was given; what a scan reads
is that text with its line ends made alike. The two are the same exactly for texts without a carriage return, and a
text with one is taken for an edit by the next scan.
-/
namespace Compendium.Catalog

open Compendium.Action (runOn runOn_bind runOn_bind_ok Leads Frame)

/-! A document that alone has its path, while files are scanned. -/

/-- A document that alone has its path, under an id that will not be given out again. -/
structure Sole (x : Source) (b : Base) : Prop where
  sound : b.store.Sound
  stored : x ∈ b.store.sources
  alone : ∀ y ∈ b.store.sources, y.path = x.path → y.id = x.id
  settled : ∀ n, b.issued < n → Action.idText n ≠ x.id

def SameDocument (id : String) (b b' : Base) : Prop :=
  (Store.document id b'.store).outcome = (Store.document id b.store).outcome

section
variable {x : Source} {b b' : Base}

theorem Sole.of_eq (h : Sole x b) (hs : b'.store = b.store) (hi : b'.issued = b.issued) : Sole x b' where
  sound := hs ▸ h.sound
  stored := hs ▸ h.stored
  alone := hs ▸ h.alone
  settled := hi ▸ h.settled

/-- Documents with other ids and paths may come and change. -/
theorem Sole.beside (h : Sole x b) {y : Source} (hput : Store.PutIn y b.store b'.store) (hid : y.id ≠ x.id)
    (hpath : y.path ≠ x.path) (hi : b.issued ≤ b'.issued) : Sole x b' where
  sound := hput.sound
  stored := (hput.mem_sources x).2 (.inr ⟨h.stored, Ne.symm hid⟩)
  alone z hz he := by
    rcases (hput.mem_sources z).1 hz with rfl | ⟨hz, -⟩
    · exact absurd he hpath
    · exact h.alone z hz he
  settled n hn := h.settled n (Nat.lt_of_le_of_lt hi hn)

/-- The document itself may be rewritten. -/
theorem Sole.rewritten (h : Sole x b) {y : Source} (hput : Store.PutIn y b.store b'.store) (hid : y.id = x.id)
    (hpath : y.path = x.path) (hi : b'.issued = b.issued) : Sole y b' where
  sound := hput.sound
  stored := (hput.mem_sources y).2 (.inl rfl)
  alone z hz he := by
    rcases (hput.mem_sources z).1 hz with rfl | ⟨hz, hne⟩
    · rfl
    · exact absurd ((h.alone z hz (he.trans hpath)).trans hid.symm) hne
  settled n hn := hid ▸ h.settled n (hi ▸ hn)

/-- The scan of a file with another path leaves the document alone. -/
theorem Sole.scanFile_other (h : Sole x b) {path : Path} (hne : path.text ≠ x.path)
    (category title content : String) :
    ∃ r c, runOn (scanFile path category title content) b = (.ok r, c) ∧ c.files = b.files ∧ r ≠ some x.id ∧
      Sole x c ∧ SameDocument x.id b c := by
  obtain ⟨r, c, hrun, hsteady, hvisit⟩ := runOn_scanFile h.sound path category title content
  refine ⟨r, c, hrun, hsteady.files, ?_⟩
  cases hvisit with
  | same y found at_ equal store issued => exact ⟨nofun, h.of_eq store issued, by rw [SameDocument, store]⟩
  | added free put issued =>
    have hid : Action.idText (b.issued + 1) ≠ x.id := h.settled _ (Nat.lt_succ_self _)
    exact ⟨fun he => hid (Option.some.inj he), h.beside put hid hne hsteady.issued, put.others x.id (Ne.symm hid)⟩
  | changed y found at_ differs put issued =>
    have hid : y.id ≠ x.id := by
      intro he
      rw [Store.eq_of_mem_sources h.sound found h.stored he] at at_
      exact hne at_.symm
    exact ⟨fun he => hid (Option.some.inj he), h.beside put hid hne hsteady.issued, put.others x.id (Ne.symm hid)⟩

/-- The scan of its own file gives the document what the file says, and reports it if that is something else. -/
theorem Sole.scanFile_own (h : Sole x b) {path : Path} (hpath : path.text = x.path) {y : Source} (hid : y.id = x.id)
    (hy : y.path = x.path) :
    ∃ r c, runOn (scanFile path y.category y.title y.content) b = (.ok r, c) ∧ c.files = b.files ∧ Sole y c ∧
      (y = x → r = none ∧ SameDocument x.id b c) ∧ (y ≠ x → r = some x.id) := by
  obtain ⟨r, c, hrun, hsteady, hvisit⟩ := runOn_scanFile h.sound path y.category y.title y.content
  have hown : ∀ z ∈ b.store.sources, z.path = path.text → z = x := fun z hz he =>
    Store.eq_of_mem_sources h.sound hz h.stored (h.alone z hz (he.trans hpath))
  refine ⟨r, c, hrun, hsteady.files, ?_⟩
  cases hvisit with
  | same z found at_ equal store issued =>
    obtain rfl := hown z found at_
    obtain rfl : y = z := by
      obtain ⟨hcontent, hcategory, htitle⟩ := equal
      cases y
      cases z
      simp_all
    exact ⟨h.of_eq store issued, fun _ => ⟨rfl, by rw [SameDocument, store]⟩, fun hne => absurd rfl hne⟩
  | added free put issued => exact absurd hpath.symm (free x h.stored)
  | changed z found at_ differs put issued =>
    obtain rfl := hown z found at_
    have heq : (⟨z.id, y.category, y.title, y.content, path.text⟩ : Source) = y := by
      rw [← hid, hpath, ← hy]
    rw [heq] at put
    refine ⟨h.rewritten put hid hy issued, fun he => ?_, fun _ => rfl⟩
    subst he
    exact absurd ⟨rfl, rfl, rfl⟩ differs

theorem SameDocument.trans {id : String} {b c d : Base} (h : SameDocument id b c) (h' : SameDocument id c d) :
    SameDocument id b d := Eq.trans h' h

theorem runOn_readFile_text {path : Path} {content : String} (h : b.files.read path = .ok content) :
    runOn (readFile path) b = (.ok (some content), b) := by
  have hr : runOn (Action.attempt (Action.readFiles fun t => t.read path)) b = (.ok (.ok content), b) := by simp [h]
  exact runOn_bind_ok.2 ⟨_, b, hr, rfl⟩

/-- Some files are scanned, and `y` is what the document's own file makes of it. It is reported exactly if that file
is among them and says something else, and left alone unless it is reported. -/
theorem Sole.scanFiles {root : Path} {own : List String} {y : Source} {files : List (List String)}
    (hnul : ∀ names ∈ files, (fileAt root names).hasNul = false)
    (happart : ∀ names ∈ files, (fileAt root names).text = y.path → names = own) :
    ∀ {x : Source} {b : Base}, Sole x b → y.id = x.id → y.path = x.path → FromFile root b.files own y →
      ∃ changed c, runOn (Catalog.scanFiles root files) b = (.ok changed, c) ∧ (own ∈ files → Sole y c) ∧
        (x.id ∈ changed ↔ own ∈ files ∧ y ≠ x) ∧
          (x.id ∉ changed → Sole x c ∧ SameDocument x.id b c) := by
  induction files with
  | nil =>
    intro x b h hid hpath hfile
    exact ⟨[], b, rfl, nofun, by simp, fun _ => ⟨h, rfl⟩⟩
  | cons names rest ih =>
    intro x b h hid hpath hfile
    rw [List.forall_mem_cons] at hnul happart
    by_cases hown : (fileAt root names).text = y.path
    · obtain rfl := happart.1 hown
      obtain ⟨hcategory, htitle⟩ := Prod.mk.inj hfile.entry
      obtain ⟨r, c, hscan, hfiles, hsole, hsame, hother⟩ := h.scanFile_own (hown.trans hpath) hid hpath
      obtain ⟨more, c', hmore, hsole', hreport, hquiet⟩ := ih hnul.2 happart.2 hsole rfl rfl (hfiles.symm ▸ hfile)
      have hnone : y.id ∉ more := fun hm => (hreport.1 hm).2 rfl
      rw [hcategory, htitle] at hscan
      obtain ⟨hlast, hlater⟩ := hquiet hnone
      have hreported : x.id ∈ r.toList ++ more ↔ y ≠ x := by
        rw [List.mem_append, or_iff_left (hid ▸ hnone)]
        constructor
        · rintro hr rfl
          rw [(hsame rfl).1] at hr
          cases hr
        · intro hne
          rw [hother hne]
          exact List.mem_cons_self
      refine ⟨r.toList ++ more, c', scanFiles_visit (runOn_readFile_text hfile.content) hscan hmore,
        fun _ => hlast, ?_,
        fun hn => ?_⟩
      · rw [hreported, and_iff_right List.mem_cons_self]
      · obtain rfl : y = x := by
          by_contra hne
          exact hn (hreported.2 hne)
        exact ⟨hlast, (hsame rfl).2.trans hlater⟩
    · have hmem : own ∈ names :: rest ↔ own ∈ rest := by
        rw [List.mem_cons, or_iff_right]
        rintro rfl
        exact hown hfile.path.symm
      obtain ⟨read, es, hread⟩ := runOn_readFile hnul.1 b
      have hnoted : Sole x (b.noting es) := h.of_eq rfl rfl
      cases read with
      | none =>
        obtain ⟨more, c', hmore, hlast, hreported, hquiet⟩ := ih hnul.2 happart.2 hnoted hid hpath hfile
        refine ⟨more, c', scanFiles_skip hread hmore, ?_⟩
        rw [hmem]
        exact ⟨hlast, hreported, hquiet⟩
      | some content =>
        obtain ⟨r, c, hscan, hfiles, hne, hsole, hsame⟩ :=
          hnoted.scanFile_other (fun he => hown (he.trans hpath.symm)) (entryOf names).1 (entryOf names).2 content
        obtain ⟨more, c', hmore, hlast, hreported, hquiet⟩ :=
          ih hnul.2 happart.2 hsole hid hpath (hfiles.symm ▸ hfile)
        have hskip : x.id ∈ r.toList ++ more ↔ x.id ∈ more := by
          rw [List.mem_append, or_iff_right]
          intro hr
          exact hne (by simpa using hr)
        refine ⟨r.toList ++ more, c', scanFiles_visit hread hscan hmore, ?_⟩
        rw [hmem, hskip]
        exact ⟨hlast, hreported, fun hn => ⟨(hquiet hn).1, SameDocument.trans hsame (hquiet hn).2⟩⟩

end

/-! A document beside its file. -/

/-- The title comes back from the name of its file. -/
theorem stemOf_suffix {title : String} (h : title ≠ "") : Path.stemOf (title ++ suffix) = title := by
  obtain ⟨c, r, hr⟩ : ∃ c r, title.toList.reverse = c :: r :=
    List.exists_cons_of_ne_nil fun he => h (by simpa using he)
  have hrev : (title ++ suffix).toList.reverse = 'd' :: 'm' :: '.' :: c :: r := by simp [suffix, hr]
  rw [Path.stemOf, hrev]
  have htitle : String.ofList (c :: r).reverse = title := by rw [← hr, List.reverse_reverse, String.ofList_toList]
  simpa [List.takeWhile] using htitle

/-- A document and its file after both were written. -/
structure Standing (base : Path) (id category title content : String) (b : Base) : Prop where
  inside : Inside base (target base category title)
  titled : Text.strip title ≠ ""
  sole : Sole (sourceAt base id category title content) b
  proper : b.files.Proper
  located : b.files.locate (target base category title) = .ok (target base category title).place
  node : b.files.node? (target base category title).place = some (.file (.text content))

section
variable {base : Path} {id category title content : String} {b : Base}

theorem Inside.target_names (h : Inside base (target base category title)) :
    ∀ n ∈ [Text.strip category, Text.strip title ++ suffix], ProperName n := by
  obtain ⟨names, -, hnames, hproper⟩ := h.names
  rw [target_eq] at hnames
  rwa [List.append_cancel_left (congrArg Path.names hnames)]

theorem Inside.base_usable {p : Path} (h : Inside base p) : base.Usable := by
  obtain ⟨names, -, rfl, -⟩ := h.names
  refine ⟨⟨h.usable.slashes, fun n hn => h.usable.names n (List.mem_append_left _ hn)⟩, ?_⟩
  have hnul := h.usable.notNul
  simp only [Path.hasNul, List.any_eq_false] at hnul ⊢
  exact fun n hn => hnul n (List.mem_append_left _ hn)

/-- The file reads as its content with the line ends made alike. -/
theorem Standing.read (h : Standing base id category title content b) :
    b.files.read (target base category title) = .ok (Text.unified content) :=
  Tree.read_text h.inside.usable.notNul h.located h.node

def ownNames (category title : String) : List String := [Text.strip category, Text.strip title ++ suffix]

theorem Standing.fromFile (h : Standing base id category title content b) :
    FromFile base b.files (ownNames category title) (sourceAt base id category title (Text.unified content)) where
  path := by rw [sourceAt, target_eq]; rfl
  content := by
    have := h.read
    rwa [target_eq] at this
  entry := by
    have hstem := stemOf_suffix h.titled
    simp [sourceAt, entryOf, ownNames, hstem]

theorem filesIn_names {t : Tree} (ht : t.Proper) {names : List String} (hn : names ∈ filesIn base t) :
    ∀ n ∈ names, ProperName n := by
  rw [filesIn] at hn
  split at hn
  · exact ht.documentsBelow hn
  · cases hn

theorem Standing.way (h : Standing base id category title content b) :
    b.files.locate { base with names := base.names ++ ownNames category title } =
      .ok (base.place ++ ownNames category title) := by
  have hl := h.located
  rw [target_eq] at hl
  exact hl.trans (congrArg Except.ok (fileAt_place base h.inside.target_names))

/-- A scan comes across the file, under the names that its category and title give. -/
theorem Standing.found (h : Standing base id category title content b) :
    ownNames category title ∈ filesIn base b.files := by
  have hproper := h.inside.target_names
  have hnode := h.node
  rw [target_eq, fileAt_place base hproper] at hnode
  rw [filesIn, (Tree.locate_append (List.cons_ne_nil _ _) h.way).1]
  refine Tree.mem_documentsBelow_of_node? (List.cons_ne_nil _ _) hnode ?_ fun _ he => ?_
  · simp [ownNames, Tree.isMarkdown, suffix]
  · have hslash := (hproper _ List.mem_cons_self).isName.2.2
    rw [Option.some.inj he] at hslash
    exact hslash (by decide)

/-- The next scan goes through. It gives the document the text of its file, and reports it if that was not its text. -/
theorem Standing.scan (h : Standing base id category title content b) :
    ∃ changed c, runOn (Catalog.scan base) b = (.ok changed, c) ∧
      Sole (sourceAt base id category title (Text.unified content)) c ∧
      (id ∈ changed ↔ Text.unified content ≠ content) ∧ (id ∉ changed → SameDocument id b c) := by
  have hbase := h.inside.base_usable
  have hmake : runOn (Action.writeFiles fun t => t.makeDirectories base) b = (.ok (), b) := by
    rw [Action.runOn_writeFiles, Tree.makeDirectories_way hbase.notNul (List.cons_ne_nil _ _) h.way]
  have hnames := fun names (hn : names ∈ filesIn base b.files) => fileAt_usable hbase (filesIn_names h.proper hn)
  have hown : fileAt base (ownNames category title) = target base category title := (target_eq base category title).symm
  have happart : ∀ names ∈ filesIn base b.files,
      (fileAt base names).text = (target base category title).text → names = ownNames category title := by
    intro names hn he
    rw [← hown] at he
    have hpath := Path.text_inj (hnames _ hn).toNormal (hown ▸ h.inside.usable.toNormal) he
    exact List.append_cancel_left (congrArg Path.names hpath)
  obtain ⟨changed, c, hscan, hsole, hreported, hquiet⟩ :=
    Sole.scanFiles (y := sourceAt base id category title (Text.unified content))
      (fun names hn => (hnames names hn).notNul) happart h.sole rfl rfl h.fromFile
  obtain ⟨es, hlog⟩ := runOn_log .info "scan" "Scanned knowledge base"
    [("path", .text base.text), ("changed", .nat changed.length)] c
  refine ⟨changed, c.noting es, runOn_bind_ok.2 ⟨(), _, hmake, runOn_bind_ok.2 ⟨_, _, runOn_filesBelow base b,
    runOn_bind_ok.2 ⟨changed, c, hscan, runOn_bind_ok.2 ⟨(), _, hlog, rfl⟩⟩⟩⟩,
      (hsole h.found).of_eq rfl rfl, ?_, ?_⟩
  · have hne : sourceAt base id category title (Text.unified content) ≠ sourceAt base id category title content ↔
        Text.unified content ≠ content := not_congr ⟨fun he => congrArg Source.content he, fun he => by rw [he]⟩
    exact hreported.trans ((and_iff_right h.found).trans hne)
  · exact fun hn => (hquiet hn).2

end

/-! Creating and rewriting. -/

theorem runOn_ofExcept_ok {α : Type} {r : Except Fault α} {a : α} {b c : Base}
    (h : runOn (Action.ofExcept r) b = (.ok a, c)) : r = .ok a ∧ b = c := by
  rw [Action.runOn_ofExcept] at h
  exact ⟨congrArg Prod.fst h, congrArg Prod.snd h⟩

theorem runOn_writeFiles_ok {f : Tree → Except Fault Tree} {b c : Base}
    (h : runOn (Action.writeFiles f) b = (.ok (), c)) : f b.files = .ok c.files ∧ Abreast b c := by
  obtain ⟨t, ht, rfl⟩ := Action.runOn_writeFiles_inv h
  exact ⟨ht, rfl, rfl, rfl⟩

/-- A document that is put in place beside a file that was just written stands beside it. -/
theorem standing_of_put {base : Path} {id category title content : String} {s : Store} {t : Tree} {b : Base}
    (hinside : Inside base (target base category title)) (htitle : Text.strip title ≠ "") (ht : t.Proper)
    (hwrite : t.write (target base category title) content = .ok b.files)
    (hsources : ∀ y, y ∈ b.store.sources ↔ y = sourceAt base id category title content ∨ y ∈ s.sources ∧
      y.id ≠ id)
    (hs : b.store.Sound) (halone : ∀ y ∈ s.sources, y.path = (target base category title).text → y.id = id)
    (hsettled : ∀ n, b.issued < n → Action.idText n ≠ id) : Standing base id category title content b where
  inside := hinside
  titled := htitle
  sole :=
    { sound := hs
      stored := (hsources _).2 (.inl rfl)
      alone := fun y hy he => by
        rcases (hsources y).1 hy with rfl | ⟨hy, -⟩
        · rfl
        · exact halone y hy he
      settled := hsettled }
  proper := ht.write hinside.usable hwrite
  located := (Tree.write_located hwrite).1
  node := (Tree.write_located hwrite).2

/-- A document that is created stands beside its file. -/
theorem create_standing {base : Path} (hb : base.Normal) {b b' : Base} (hs : b.store.Sound) (hf : b.files.Sound)
    {category title content : String} {d : Document} (h : runOn (create base category title content) b = (.ok d, b')) :
    Standing base d.id category title content b' := by
  obtain ⟨c, b₁, hcategory, h⟩ := runOn_bind_ok.1 h
  obtain ⟨hc, rfl⟩ := runOn_ofExcept_ok hcategory
  obtain ⟨t, b₂, htitle, h⟩ := runOn_bind_ok.1 h
  obtain ⟨ht, rfl⟩ := runOn_ofExcept_ok htitle
  obtain ⟨rfl, hcn, -⟩ := validName_ok hc
  obtain ⟨rfl, htn, -⟩ := validName_ok ht
  obtain ⟨found, b₁, hlook, h⟩ := runOn_bind_ok.1 h
  rw [Action.runOn_readStore] at hlook
  obtain ⟨hread, rfl⟩ := Prod.mk.inj hlook
  split at h
  · cases h
  next hnone =>
    have hfree : ∀ x ∈ b.store.sources, x.path ≠ (target base category title).text := by
      rcases Store.atPath_outcome hs (target base category title).text with ⟨-, hfree⟩ | ⟨x, hsome, -⟩
      · exact hfree
      · cases hread.symm.trans hsome
        exact absurd rfl hnone
    obtain ⟨u, b₂, hmake, h⟩ := runOn_bind_ok.1 h
    obtain ⟨hmake, hmade⟩ := runOn_writeFiles_ok hmake
    obtain ⟨hgrown, -⟩ := Tree.makeDirectories_grown hf (pathOf_normal hb hcn htn).parent hmake
    obtain ⟨v, b₃, hwrite, h⟩ := runOn_bind_ok.1 h
    obtain ⟨hwrite, hwritten⟩ := runOn_writeFiles_ok hwrite
    have hstore : b₃.store = b.store := (hmade.trans hwritten).store
    obtain ⟨x, b₄, hadd, hfiles, hnext, hput, hid⟩ :=
      runOn_add (hstore ▸ hs) (Text.strip category) (Text.strip title)
      content (target base category title).text "Created knowledge item"
      fun d => [("id", .text d.id), ("title", .text (Text.strip title)), ("category", .text (Text.strip category))]
    obtain ⟨hx, rfl⟩ := Prod.mk.inj (hadd.symm.trans h)
    cases hx
    refine standing_of_put (s := b.store) (target_inside hb hc ht (Tree.onPath_ok hwrite).1) htn.1 hgrown.sound.proper
      (hfiles ▸ hwrite) ?_ hput.sound (fun y hy he => absurd he (hfree y hy)) fun n hn he => ?_
    · rw [hid, ← hstore]
      exact hput.mem_sources
    · rw [hnext] at hn
      rw [hid] at he
      exact absurd (Action.idText_inj he) (Nat.ne_of_gt hn)

/-- Two bases with the same documents, ids and refusals, of which the second has no place out of reach if the first
has none. -/
structure Moves (b b' : Base) : Prop extends Abreast b b' where
  proper : b.files.Proper → b'.files.Proper

theorem frame_moves : Frame Moves where
  refl _ := ⟨⟨rfl, rfl, rfl⟩, id⟩
  trans h h' := ⟨h.toAbreast.trans h'.toAbreast, fun hp => h'.proper (h.proper hp)⟩
  noting _ _ := ⟨⟨rfl, rfl, rfl⟩, id⟩

theorem moves_writeFiles {f : Tree → Except Fault Tree} (h : ∀ t t', f t = .ok t' → t.Proper → t'.Proper) :
    Leads Moves (Action.writeFiles f) :=
  Action.leads_writeFiles frame_moves fun b t ht => ⟨⟨rfl, rfl, rfl⟩, h b.files t ht⟩

/-- Whatever is at the old path, moving it touches no document. -/
theorem moves_moveFile {base old new : Path} (hnew : new.Normal) : Leads Moves (moveFile base old new) := by
  have hf := frame_moves
  have htidy : Leads Moves (tidy base old.parent) := by
    refine Action.leads_bind hf (Action.leads_get hf) fun b => ?_
    split
    · exact moves_writeFiles fun t t' h ht => ht.removeDirectory h
    · exact Action.leads_pure hf _
  dsimp only [moveFile]
  split
  · refine Action.leads_bind hf (Action.leads_readFiles hf _) fun found => ?_
    split
    · refine Action.leads_bind hf (moves_writeFiles fun t t' h ht => ?_) fun _ => htidy
      exact ht.rename ⟨hnew, (Tree.rename_inv h).1⟩ h
    · exact Action.leads_pure hf _
  · exact Action.leads_pure hf _

/-- A document that is put in the place of an older one to give it a new category, title, content and time. -/
def renewed (base : Path) (old : Document) (category title content : String) (now : Time) : Document :=
  { old with
    category := Text.strip category, title := Text.strip title, content := content
    path := (target base category title).text, updated := some now }

/-- A document is put in place at some time and its chunks are dropped. -/
def PutBare (now : Time) (d : Document) (s s' : Store) : Prop :=
  ∃ u, Store.put now d s = .ok u ∧ Store.deleteChunks d.id u = .ok s'

/-- The document is as it was put, and the others are as they were. -/
theorem PutBare.sources {now : Time} {d : Document} {s s' : Store} (hs : s.Sound) (h : PutBare now d s s') :
    s'.Sound ∧ ∀ y, y ∈ s'.sources ↔ y = d.source ∨ y ∈ s.sources ∧ y.id ≠ d.id := by
  obtain ⟨u, hput, hdrop⟩ := h
  obtain ⟨u', hu', hin⟩ := Store.put_outcome hs now d
  cases hu'.symm.trans hput
  obtain ⟨s₂, hs₂, hsound, hsources⟩ := Store.deleteChunks_outcome hin.sound d.id
  cases hs₂.symm.trans hdrop
  exact ⟨hsound, fun y => hsources ▸ hin.mem_sources y⟩

/-- The file of a document has moved to a new path, if the document had one. -/
def Relocated (base : Path) (old : Document) (new : Path) (b c : Base) : Prop :=
  if old.path = "" then c = b else runOn (moveFile base (Path.ofText old.path) new) b = (.ok (), c)

def rewriteAt (base : Path) (old : Document) (category title content : String) : Action Document := do
  Action.writeFiles fun t => t.write (target base category title) content
  Action.putDocument (renewed base old category title content (← Action.now))
  Action.writeStore (Store.deleteChunks old.id)
  log .info "update_item" "Updated knowledge item"
    [("id", .text old.id), ("title", .text (Text.strip title)), ("category", .text (Text.strip category))]
  Action.document old.id

/-- What a rewriting that went through has found and done. -/
structure Renewing (base : Path) (old : Document) (category title content : String) (b : Base) (d : Document)
    (b' : Base) : Prop where
  named : validName "category" category = .ok (Text.strip category)
  titled : validName "title" title = .ok (Text.strip title)
  admitted : b.refusals.reading old.id = false
  read : (Store.document old.id b.store).outcome = .ok old
  done : ∃ es t c, b.files.makeDirectories (target base category title).parent = .ok t ∧
    Relocated base old (target base category title) { b.noting es with files := t } c ∧
    c.files.write (target base category title) content = .ok b'.files ∧ b'.issued = c.issued ∧
    let now := Time.ofUnixMicros c.clock
    PutBare now (renewed base old category title content now) c.store b'.store
  given : (Store.document old.id b'.store).outcome = .ok d

/-- All that a rewriting does when it goes through. -/
theorem update_ok {base : Path} {b b' : Base} (hs : b.store.Sound) {id category title content : String} {d : Document}
    (h : runOn (update base id category title content) b = (.ok d, b')) :
    ∃ old, old.id = id ∧ Renewing base old category title content b d b' := by
  obtain ⟨c, b₁, hcategory, h⟩ := runOn_bind_ok.1 h
  obtain ⟨hc, rfl⟩ := runOn_ofExcept_ok hcategory
  obtain ⟨t, b₂, htitle, h⟩ := runOn_bind_ok.1 h
  obtain ⟨ht, rfl⟩ := runOn_ofExcept_ok htitle
  obtain ⟨rfl, -⟩ := validName_ok hc
  obtain ⟨rfl, -⟩ := validName_ok ht
  obtain ⟨old, b₁, hread, h⟩ := runOn_bind_ok.1 h
  rcases Action.runOn_document id b with hno | ⟨hopen, es, hok⟩
  · cases hno.symm.trans hread
  obtain ⟨ho, rfl⟩ := Prod.mk.inj (hok.symm.trans hread)
  obtain ⟨-, rfl⟩ := Store.document_outcome hs ho
  obtain ⟨u, b₂, hmake, h⟩ := runOn_bind_ok.1 h
  obtain ⟨t, hmade, rfl⟩ := Action.runOn_writeFiles_inv hmake
  obtain ⟨c, hmoved, h⟩ : ∃ c, Relocated base old (target base category title)
    { b.noting es with files := t } c ∧
      runOn (rewriteAt base old category title content) c = (.ok d, b') := by
    by_cases hempty : old.path = ""
    · rw [if_neg (by simp [hempty])] at h
      refine ⟨_, ?_, h⟩
      rw [Relocated, if_pos hempty]
    · rw [if_pos (by simpa using hempty)] at h
      obtain ⟨v, c, hmove, h⟩ := runOn_bind_ok.1 h
      refine ⟨c, ?_, h⟩
      rwa [Relocated, if_neg hempty]
  obtain ⟨v, b₃, hwrite, h⟩ := runOn_bind_ok.1 h
  obtain ⟨t', hwrote, rfl⟩ := Action.runOn_writeFiles_inv hwrite
  obtain ⟨now, b₄, hnow, h⟩ := runOn_bind_ok.1 h
  cases hnow
  obtain ⟨v, b₅, hput, h⟩ := runOn_bind_ok.1 h
  rw [Action.putDocument, runOn_bind, Action.runOn_now] at hput
  obtain ⟨s, hstored, rfl⟩ := Action.runOn_writeStore_inv hput
  obtain ⟨v, b₆, hdrop, h⟩ := runOn_bind_ok.1 h
  obtain ⟨s', hdropped, rfl⟩ := Action.runOn_writeStore_inv hdrop
  obtain ⟨v, b₇, hlog, h⟩ := runOn_bind_ok.1 h
  cases hlog
  rcases Action.runOn_document old.id _ with hno | ⟨-, es', hok'⟩
  · cases hno.symm.trans h
  obtain ⟨hd, rfl⟩ := Prod.mk.inj (hok'.symm.trans h)
  exact ⟨old, rfl, hc, ht, hopen, ho, ⟨es, t, c, hmade, hmoved, hwrote, rfl, s, hstored, hdropped⟩, hd⟩

/-- A rewriting goes through if its steps do. -/
theorem update_of_steps {base : Path} {b b' c : Base} {old d : Document} {category title content : String} {t : Tree}
    {es : List Entry} (hc : validName "category" category = .ok (Text.strip category))
    (ht : validName "title" title = .ok (Text.strip title))
    (hread : runOn (Action.document old.id) b = (.ok old, b.noting es))
    (hmake : b.files.makeDirectories (target base category title).parent = .ok t)
    (hmove : Relocated base old (target base category title) { b.noting es with files := t } c)
    (hrest : runOn (rewriteAt base old category title content) c = (.ok d, b')) :
    runOn (update base old.id category title content) b = (.ok d, b') := by
  refine runOn_bind_ok.2 ⟨_, b, by rw [Action.runOn_ofExcept, hc], ?_⟩
  refine runOn_bind_ok.2 ⟨_, b, by rw [Action.runOn_ofExcept, ht], ?_⟩
  refine runOn_bind_ok.2 ⟨old, _, hread, ?_⟩
  refine runOn_bind_ok.2 ⟨(), { b.noting es with files := t }, ?_, ?_⟩
  · change runOn (Action.writeFiles fun t => t.makeDirectories (target base category title).parent) _ = _
    rw [Action.runOn_writeFiles, Base.noting_files, hmake]
  rw [Relocated] at hmove
  by_cases hempty : old.path = ""
  · rw [if_pos hempty] at hmove
    rw [if_neg (by simp [hempty]), ← hmove]
    exact hrest
  · rw [if_neg hempty] at hmove
    rw [if_pos (by simpa using hempty)]
    exact runOn_bind_ok.2 ⟨(), c, hmove, hrest⟩

theorem Relocated.moves {base new : Path} {old : Document} {b c : Base} (h : Relocated base old new b c)
    (hnew : new.Normal) : Moves b c := by
  rw [Relocated] at h
  split at h
  · exact h ▸ frame_moves.refl b
  · exact (moves_moveFile hnew).of_run h

/-- A document that is rewritten stands beside its file, wherever that was before. -/
theorem update_standing {base : Path} (hb : base.Normal) {b b' : Base} (hs : b.store.Sound) (hf : b.files.Sound)
    {id category title content : String} {d : Document}
    (halone : ∀ y ∈ b.store.sources, y.path = (target base category title).text → y.id = id)
    (hsettled : ∀ n, b.issued < n → Action.idText n ≠ id)
    (h : runOn (update base id category title content) b = (.ok d, b')) :
    Standing base id category title content b' := by
  obtain ⟨old, rfl, hrenewing⟩ := update_ok hs h
  obtain ⟨-, hcn, -⟩ := validName_ok hrenewing.named
  obtain ⟨-, htn, -⟩ := validName_ok hrenewing.titled
  have hnormal : (target base category title).Normal := pathOf_normal hb hcn htn
  obtain ⟨es, t, c, hmake, hmove, hwrite, hissued, hput⟩ := hrenewing.done
  obtain ⟨hgrown, -⟩ := Tree.makeDirectories_grown hf hnormal.parent hmake
  have hmoves := hmove.moves hnormal
  obtain ⟨hsound, hsources⟩ := PutBare.sources (hmoves.store.symm ▸ hs) hput
  have hinside := target_inside hb hrenewing.named hrenewing.titled (Tree.onPath_ok hwrite).1
  refine standing_of_put (s := b.store) hinside htn.1 (hmoves.proper hgrown.sound.proper) hwrite (fun y => ?_) hsound
    halone fun n hn => hsettled n ?_
  · rw [hsources, hmoves.store]
    rfl
  · rwa [hissued, hmoves.issued] at hn

/-- A document and its file after both were written: the file reads as the document, and the next scan leaves the
document alone, exactly if its content has no carriage return. -/
structure Mirrored (base : Path) (id category title content : String) (b : Base) : Prop where
  stored : ∃ d, (Store.document id b.store).outcome = .ok d ∧ d.source = sourceAt base id category title content
  read : b.files.read (target base category title) = .ok (Text.unified content)
  reads_iff : b.files.read (target base category title) = .ok content ↔ '\r' ∉ content.toList
  scanned : ∃ changed c, runOn (Catalog.scan base) b = (.ok changed, c) ∧
    (id ∉ changed ↔ '\r' ∉ content.toList) ∧
    ((Store.document id c.store).outcome = (Store.document id b.store).outcome ↔ '\r' ∉ content.toList) ∧
      ∃ d, (Store.document id c.store).outcome = .ok d ∧
        d.source = sourceAt base id category title (Text.unified content)

/-- Where document and file stand as they were written, the next scan has news exactly if the content has a carriage
return. -/
theorem Standing.mirrored {base : Path} {id category title content : String} {b : Base}
    (h : Standing base id category title content b) : Mirrored base id category title content b := by
  obtain ⟨d, hd, hsource⟩ := Store.document_of_mem h.sole.sound h.sole.stored
  obtain ⟨changed, c, hscan, hsole, hreported, hquiet⟩ := h.scan
  obtain ⟨d', hd', hsource'⟩ := Store.document_of_mem hsole.sound hsole.stored
  have hunchanged : id ∉ changed ↔ '\r' ∉ content.toList := by
    rw [hreported, not_not, Text.unified_eq_self_iff]
  refine ⟨⟨d, hd, hsource⟩, h.read, ?_, changed, c, hscan, hunchanged, ?_, d', hd', hsource'⟩
  · rw [h.read, Except.ok.injEq, Text.unified_eq_self_iff]
  · constructor
    · intro hsame
      have hdocuments : d' = d := Except.ok.inj (hd'.symm.trans (hsame.trans hd))
      rw [hdocuments, hsource] at hsource'
      exact Text.unified_eq_self_iff.1 (congrArg Source.content hsource').symm
    · exact fun hn => hquiet (hunchanged.2 hn)

/-- A document that is created, or rewritten where no other document has its new path, and its file mirror each other
as far as the next scan can tell exactly if its content has no carriage return. -/
theorem mirrored_iff_no_carriage_return (text : String) {b b' : Base} (hs : b.store.Sound) (hf : b.files.Sound)
    (category title content : String) :
    let base := Path.ofText text
    (∀ d, runOn (create base category title content) b = (.ok d, b') →
      Mirrored base d.id category title content b') ∧
      ∀ id d, (∀ y ∈ b.store.sources, y.path = (target base category title).text → y.id = id) →
        (∀ n, b.issued < n → Action.idText n ≠ id) →
          runOn (update base id category title content) b = (.ok d, b') →
          Mirrored base id category title content b' := by
  intro base
  have hb : base.Normal := Path.ofText_normal text
  constructor
  · exact fun d h => (create_standing hb hs hf h).mirrored
  · exact fun id d halone hsettled h => (update_standing hb hs hf halone hsettled h).mirrored

/-! A base directory in the directory of work. -/

/-- A base with a document that has no file. -/
def unfiled : Base where
  store := .memory { documents := [("a", ⟨"a", "X", "t", "old", "", none, none⟩)] }

theorem exists_document (work : Action Document) (b : Base) (id : String)
    (h : (runOn work b).1.toOption.map Document.id = some id) :
    ∃ d, runOn work b = (.ok d, (runOn work b).2) ∧ d.id = id := by
  obtain ⟨d, hd, hid⟩ := exists_of_toOption h
  exact ⟨d, Prod.ext hd rfl, hid⟩

/-- One document is created, and another one, which had no file, is rewritten and gets one. -/
theorem mirrored_iff_no_carriage_return_small :
    unfiled.store.Sound ∧ unfiled.files.Sound ∧
      (∃ d b', runOn (create (Path.ofText "kb") "X" "a" "1") unfiled = (.ok d, b') ∧
        Mirrored (Path.ofText "kb") d.id "X" "a" "1" b') ∧
      ∃ d b', runOn (update (Path.ofText "kb") "a" "Y" "b" "2") unfiled = (.ok d, b') ∧
        Mirrored (Path.ofText "kb") "a" "Y" "b" "2" b' := by
  have hs : unfiled.store.Sound := ⟨by simp, by simp [Keyed.keys]⟩
  have hf : unfiled.files.Sound := ⟨List.nodup_nil, List.forall_mem_nil _, List.forall_mem_nil _⟩
  obtain ⟨d, hcreate, -⟩ :=
    exists_document (create (Path.ofText "kb") "X" "a" "1") unfiled "id-0001" (by decide +kernel)
  obtain ⟨d', hupdate, -⟩ :=
    exists_document (update (Path.ofText "kb") "a" "Y" "b" "2") unfiled "a" (by decide +kernel)
  refine ⟨hs, hf, ⟨d, _, hcreate, (mirrored_iff_no_carriage_return "kb" hs hf "X" "a" "1").1 d hcreate⟩, d',
    _, hupdate,
    (mirrored_iff_no_carriage_return "kb" hs hf "Y" "b" "2").2 "a" d' (fun y hy _ => ?_) (fun n _ he => ?_) hupdate⟩
  · rw [List.mem_singleton.1 hy]
    rfl
  · have hmark : (Action.idText n).toList.head? = some 'i' := by simp [Action.idText]
    rw [he] at hmark
    exact absurd hmark (by decide)

/-- A carriage return comes back from the file as a line feed, and the next scan reports the document that holds it. -/
theorem carriage_return_is_taken_for_an_edit :
    let work := create (Path.ofText "kb") "X" "a" "a\rb"
    let b : Base := (runOn work {}).2
    (runOn work {}).1.toOption.map Document.content = some "a\rb" ∧
      (b.files.read (target (Path.ofText "kb") "X" "a")).toOption = some "a\nb" ∧
      (runOn (scan (Path.ofText "kb")) b).1.toOption = some ["id-0001"] ∧
      (Store.document "id-0001" (runOn (scan (Path.ofText "kb")) b).2.store).outcome.toOption.map Document.content =
        some "a\nb" := by
  decide +kernel

end Compendium.Catalog
