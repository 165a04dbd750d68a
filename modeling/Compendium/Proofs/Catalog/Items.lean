import Compendium.Proofs.Catalog.Scan

/-!
What creating, rewriting and deleting a document does to the store and to the
files. Each of them either stops before it has touched a file or goes through;
only a rewriting can stop after it has moved its file, when the way to the base
directory led through the category that the file left empty.
-/
namespace Compendium.Catalog

open Compendium.Action (runOn runOn_bind runOn_bind_ok)

/-! Paths below a base directory. -/

/-- A path that leads from a base directory down to something below it. -/
structure Inside (base p : Path) : Prop where
  usable : p.Usable
  names : ∃ names, names ≠ [] ∧ p = fileAt base names ∧ ∀ n ∈ names, ProperName n

theorem fileAt_place (base : Path) {names : List String} (hn : ∀ n ∈ names, ProperName n) :
    (fileAt base names).place = base.place ++ names := by
  rw [fileAt, Path.place, Place.follow_append, Place.follow_plain fun h => (hn _ h).notUp rfl]
  rfl

/-- Paths below one directory that lead to the same place are the same. -/
theorem Inside.place_inj {base p q : Path} (hp : Inside base p) (hq : Inside base q) (h : p.place = q.place) :
    p = q := by
  obtain ⟨ms, -, rfl, hms⟩ := hp.names
  obtain ⟨ns, -, rfl, hns⟩ := hq.names
  rw [fileAt_place base hms, fileAt_place base hns] at h
  rw [List.append_cancel_left h]

theorem Inside.ofText {base p : Path} (h : Inside base p) : Path.ofText p.text = p := Path.ofText_text h.usable.toNormal

theorem Inside.text_ne_empty {base p : Path} (h : Inside base p) : p.text.isEmpty = false := by
  rw [← Bool.not_eq_true, String.isEmpty_iff]
  intro he
  obtain ⟨ns, hne, hp, -⟩ := h.names
  have hof := h.ofText
  rw [he, hp] at hof
  have : base.names ++ ns = [] := (congrArg Path.names hof).symm
  exact hne (List.append_eq_nil_iff.1 this).2

/-- The directory above a path, unless it is the base, lies below it as well. -/
theorem Inside.parent_place {base p : Path} (h : Inside base p) (hne : p.parent ≠ base) :
    ∃ names, names ≠ [] ∧ p.parent.place = base.place ++ names ∧ ∀ n ∈ names, ProperName n := by
  obtain ⟨ns, hns, rfl, hproper⟩ := h.names
  have hparent : (fileAt base ns).parent = fileAt base ns.dropLast := by
    simp only [fileAt, Path.parent, List.dropLast_append_of_ne_nil hns]
  have hproper' : ∀ n ∈ ns.dropLast, ProperName n := fun n hn => hproper n (List.dropLast_subset _ hn)
  refine ⟨ns.dropLast, fun he => hne ?_, ?_, hproper'⟩
  · rw [hparent, he]
    simp [fileAt]
  · rw [hparent, fileAt_place base hproper']

def target (base : Path) (category title : String) : Path := pathOf base (Text.strip category) (Text.strip title)

theorem target_eq (base : Path) (category title : String) :
    target base category title = fileAt base [Text.strip category, Text.strip title ++ suffix] := by
  simp [target, pathOf, fileAt, Path.child]

/-- A name that passes has lost the blanks around it and leads one level down. -/
theorem validName_ok {field name s : String} (h : validName field name = .ok s) :
    s = Text.strip name ∧ Path.IsName s ∧ s ≠ ".." := by
  simp only [validName] at h
  split at h
  · cases h
  · rename_i hne
    split at h
    · cases h
    · rename_i helse
      cases h
      simp only [leadsElsewhere, Bool.or_eq_true, decide_eq_true_eq, not_or, List.contains_iff_mem] at helse
      obtain ⟨⟨⟨hslash, -⟩, hdot⟩, hup⟩ := helse
      exact ⟨rfl, ⟨by simpa using hne, hdot, hslash⟩, hup⟩

theorem isName_suffix {title : String} (h : '/' ∉ title.toList) :
    Path.IsName (title ++ suffix) ∧ title ++ suffix ≠ ".." := by
  have hlong : ∀ s : String, s.toList.length < 3 → title ++ suffix ≠ s := by
    intro s hs he
    have := congrArg (fun s : String => s.toList.length) he
    simp only [String.toList_append, List.length_append, suffix] at this
    simp at this hs
    omega
  have hslash : '/' ∉ (title ++ suffix).toList := by simp [suffix, h]
  exact ⟨⟨hlong "" (by decide), hlong "." (by decide), hslash⟩, hlong ".." (by decide)⟩

theorem pathOf_normal {base : Path} (hb : base.Normal) {category title : String} (hc : Path.IsName category)
    (ht : Path.IsName title) : (pathOf base category title).Normal where
  slashes := hb.slashes
  names n hn := by
    rcases List.mem_append.1 hn with hn | hn
    · rcases List.mem_append.1 hn with hn | hn
      · exact hb.names n hn
      · exact List.mem_singleton.1 hn ▸ hc
    · exact List.mem_singleton.1 hn ▸ (isName_suffix ht.2.2).1

/-- Names that are allowed lead to a file below the base, as far as files can have them. -/
theorem target_inside {base : Path} (hb : base.Normal) {category title c t : String}
    (hc : validName "category" category = .ok c) (ht : validName "title" title = .ok t)
    (hn : (target base category title).hasNul = false) : Inside base (target base category title) := by
  obtain ⟨rfl, hcn, hcup⟩ := validName_ok hc
  obtain ⟨rfl, htn, -⟩ := validName_ok ht
  obtain ⟨htn', htup⟩ := isName_suffix htn.2.2
  rw [target_eq] at hn ⊢
  have hproper : ∀ n ∈ [Text.strip category, Text.strip title ++ suffix], ProperName n := by
    simp only [Path.hasNul, fileAt, List.any_eq_false] at hn
    intro n hm
    have hnul : '\x00' ∉ n.toList := by simpa using hn n (List.mem_append_right _ hm)
    rcases List.mem_cons.1 hm with rfl | hm
    · exact ⟨hcn, hcup, hnul⟩
    · obtain rfl := List.mem_singleton.1 hm
      exact ⟨htn', htup, hnul⟩
  refine ⟨⟨⟨hb.slashes, fun n hm => ?_⟩, hn⟩, _, List.cons_ne_nil _ _, rfl, hproper⟩
  exact (List.mem_append.1 hm).elim (hb.names n) fun hm => (hproper n hm).isName

/-! Creating. -/

/-- Work stopped before anything had happened but that directories were made. -/
structure Stopped (b b' : Base) : Prop where
  store : b'.store = b.store
  issued : b'.issued = b.issued
  files : b.files.Grown b'.files

theorem Stopped.refl {b : Base} (hf : b.files.Sound) : Stopped b b := ⟨rfl, rfl, Tree.Grown.refl hf⟩

/-- A document has been put in place and its file written, beside all files that are not its own. -/
structure Placed (p : Path) (x : Source) (own : Place → Prop) (b b' : Base) : Prop where
  files : b'.files.Sound
  node : b'.files.node? p.place = some (.file (.text x.content))
  kept : ∀ place c, b.files.node? place = some (.file c) → ¬ own place → place ≠ p.place →
    b'.files.node? place = some (.file c)
  sound : b'.store.Sound
  sources : ∀ y, y ∈ b'.store.sources ↔ y = x ∨ y ∈ b.store.sources ∧ y.id ≠ x.id

/-- The document that is put in place for a category and a title, as they are given. -/
def sourceAt (base : Path) (id category title content : String) : Source :=
  ⟨id, Text.strip category, Text.strip title, content, (target base category title).text⟩

inductive Creation (base : Path) (category title content : String) (b : Base) : Except Fault Document × Base → Prop
  | refused (e : Fault) {b' : Base} (h : Stopped b b') : Creation base category title content b (.error e, b')
  | done (d : Document) {b' : Base} (inside : Inside base (target base category title))
      (free : ∀ x ∈ b.store.sources, x.path ≠ (target base category title).text)
      (placed : Placed (target base category title)
        (sourceAt base (Action.idText (b.issued + 1)) category title content) (fun _ => False) b b')
      (issued : b'.issued = b.issued + 1) : Creation base category title content b (.ok d, b')

/-- Two bases with the same documents, ids and refusals; files may differ. -/
structure Abreast (b b' : Base) : Prop where
  store : b'.store = b.store
  issued : b'.issued = b.issued
  refusals : b'.refusals = b.refusals

theorem Abreast.trans {b c d : Base} (h : Abreast b c) (h' : Abreast c d) : Abreast b d :=
  ⟨h'.store.trans h.store, h'.issued.trans h.issued, h'.refusals.trans h.refusals⟩

/-- A change of files is refused and changes nothing, or it changes the files alone. -/
theorem runOn_writeFiles_cases (f : Tree → Except Fault Tree) (b : Base) :
    (∃ e, runOn (Action.writeFiles f) b = (.error e, b)) ∨
      ∃ c, runOn (Action.writeFiles f) b = (.ok (), c) ∧ f b.files = .ok c.files ∧ Abreast b c := by
  rw [Action.runOn_writeFiles]
  cases f b.files with
  | error e => exact .inl ⟨e, rfl⟩
  | ok t => exact .inr ⟨{ b with files := t }, rfl, rfl, rfl, rfl, rfl⟩

/-- A new document goes into a store in good order without fail. -/
theorem runOn_add {b : Base} (hs : b.store.Sound) (category title content path message : String)
    (fields : Document → List (String × Json)) :
    ∃ d c, runOn (do
        let d ← newDocument category title content path
        Action.putDocument d
        log .info "create_item" message (fields d)
        return d) b = (.ok d, c) ∧
      c.files = b.files ∧ c.issued = b.issued + 1 ∧
      Store.PutIn ⟨Action.idText (b.issued + 1), category, title, content, path⟩ b.store c.store ∧
      d.id = Action.idText (b.issued + 1) := by
  let d : Document := ⟨Action.idText (b.issued + 1), category, title, content, path,
    some (Time.ofUnixMicros b.clock), some (Time.ofUnixMicros b.clock)⟩
  obtain ⟨s, hput, hin⟩ := runOn_putDocument (b := { b with issued := b.issued + 1 }) hs d
  let c : Base := { b with issued := b.issued + 1, store := s }
  obtain ⟨es, hlog⟩ := runOn_log .info "create_item" message (fields d) c
  have hnew : runOn (newDocument category title content path) b = (.ok d, { b with issued := b.issued + 1 }) := rfl
  exact ⟨d, c.noting es, runOn_bind_ok.2 ⟨d, _, hnew, runOn_bind_ok.2 ⟨(), c, hput,
    runOn_bind_ok.2 ⟨(), _, hlog, rfl⟩⟩⟩, rfl, rfl, hin, rfl⟩

theorem runOn_create {base : Path} (hb : base.Normal) {b : Base} (hs : b.store.Sound) (hf : b.files.Sound)
    (category title content : String) :
    Creation base category title content b (runOn (create base category title content) b) := by
  have hsame := Stopped.refl hf
  simp only [create, runOn_bind, Action.runOn_ofExcept]
  cases hc : validName "category" category with
  | error e => exact .refused e hsame
  | ok c =>
  cases ht : validName "title" title with
  | error e => exact .refused e hsame
  | ok t =>
  obtain ⟨rfl, hcn, -⟩ := validName_ok hc
  obtain ⟨rfl, htn, -⟩ := validName_ok ht
  have hinside := target_inside hb hc ht
  dsimp only
  generalize hp : pathOf base (Text.strip category) (Text.strip title) = p
  have hp : target base category title = p := hp
  rw [hp] at hinside
  rw [Action.runOn_readStore]
  rcases Store.atPath_outcome hs p.text with ⟨hnone, hfree⟩ | ⟨d, hsome, -, -⟩
  · rw [hnone]
    generalize List.map (Action.noticeEntry b.clock) _ = es
    simp only [Option.isSome, Bool.false_eq_true, if_false]
    rw [runOn_bind]
    rcases runOn_writeFiles_cases (fun t => t.makeDirectories p.parent) (b.noting es) with
      ⟨e, he⟩ | ⟨c, hc', hmake, hc⟩
    · rw [he]
      exact .refused e ⟨rfl, rfl, Tree.Grown.refl hf⟩
    obtain ⟨hgrown, -⟩ := Tree.makeDirectories_grown hf (hp ▸ (pathOf_normal hb hcn htn).parent) hmake
    rw [hc']
    dsimp only
    rw [runOn_bind]
    rcases runOn_writeFiles_cases (fun t => t.write p content) c with ⟨e, he⟩ | ⟨d, hd', hwrite, hd⟩
    · rw [he]
      exact .refused e ⟨hc.store, hc.issued, hgrown⟩
    rw [hd']
    dsimp only
    have hnul := (Tree.onPath_ok hwrite).1
    have hwritten := Tree.write_ok hgrown.sound (hinside hnul).usable.toNormal hwrite
    have hds : d.store = b.store := hd.store.trans hc.store
    have hdi : d.issued = b.issued := hd.issued.trans hc.issued
    obtain ⟨x, c', hadd, hfiles, hissued, hput, -⟩ :=
      runOn_add (hds ▸ hs) (Text.strip category) (Text.strip title) content p.text "Created knowledge item"
      fun d => [("id", .text d.id), ("title", .text (Text.strip title)), ("category", .text (Text.strip category))]
    rw [hadd]
    rw [hdi, hds] at hput
    refine .done x (hp ▸ hinside hnul) (hp ▸ hfree) ⟨?_, ?_, ?_, hput.sound, ?_⟩ (by rw [hissued, hdi])
    · exact hfiles ▸ hwritten.sound
    · rw [hp, hfiles, hwritten.node, if_pos rfl]
      rfl
    · intro place k hk _ hne
      rw [hp] at hne
      rw [hfiles, hwritten.node, if_neg hne]
      exact hgrown.kept place _ hk
    · intro y
      rw [sourceAt, hp]
      exact hput.mem_sources y
  · rw [hsome]
    exact .refused _ ⟨rfl, rfl, Tree.Grown.refl hf⟩

/-! Rewriting. -/

/-- A file has moved, and the directory that it left may be gone. -/
structure Shifted (base old new : Path) (t t' : Tree) : Prop where
  sound : t'.Sound
  notNul : new.hasNul = false
  located : t.locate new = .ok new.place
  arrived : ∃ c, t'.node? new.place = some (.file c)
  gone : t'.node? old.place = none
  files : ∀ place c, t.node? place = some (.file c) → place ≠ old.place → place ≠ new.place →
    t'.node? place = some (.file c)
  directories : ∀ place, t.node? place = some .directory → t'.node? place = some .directory ∨
    ¬ place <+: new.place ∧ ∃ names, names ≠ [] ∧ place = base.place ++ names

theorem not_root_below {base : Path} {names : List String} (hne : names ≠ []) (hn : ∀ n ∈ names, ProperName n) :
    ¬ Tree.IsRoot (base.place ++ names) := by
  rintro (hr | hr)
  · exact hne (List.append_eq_nil_iff.1 hr).2
  · rcases List.append_eq_singleton_iff.1 hr with ⟨-, hr⟩ | ⟨-, hr⟩
    · exact (hn "/" (hr ▸ List.mem_singleton_self _)).isName.2.2 (by decide)
    · exact hne hr

/-- Tidying never fails; at most it takes an empty directory away. -/
theorem runOn_tidy {directory : Path} (base : Path) (hn : directory.hasNul = false) (b : Base) :
    runOn (tidy base directory) b = (.ok (), b) ∨
      ∃ c, runOn (tidy base directory) b = (.ok (), c) ∧ Abreast b c ∧ directory ≠ base ∧
        b.files.removeDirectory directory = .ok c.files := by
  simp only [tidy, runOn_bind, Action.runOn_get]
  by_cases he : directory ≠ base ∧ b.files.hasEmptyDirectory directory = true
  · rw [if_pos (by simpa using he)]
    rcases runOn_writeFiles_cases (fun t => t.removeDirectory directory) b with ⟨e, hw⟩ | ⟨c, hw, ht, hc⟩
    · obtain ⟨t, ht⟩ := Tree.removeDirectory_total hn he.2
      rw [Action.runOn_writeFiles, ht] at hw
      cases hw
    · exact .inr ⟨c, hw, hc, he.1, ht⟩
  · rw [if_neg (by simpa using he)]
    exact .inl rfl

/-- A file that moves and leaves its directory to be tidied up. -/
theorem Shifted.of_moved {base old new : Path} {t t' t'' : Tree} {c : Content} (ho : Inside base old)
    (hne : old.place ≠ new.place) (hl : new.hasNul = false ∧ t.locate new = .ok new.place)
    (hc : t.node? old.place = some (.file c))
    (hm : Tree.Moved t old.place new.place c t')
    (ht : t'' = t' ∨ old.parent ≠ base ∧ t'.removeDirectory old.parent = .ok t'') :
    Shifted base old new t t'' := by
  have harrived : t'.node? new.place = some (.file c) := by rw [hm.node, if_pos rfl]
  have hgone : t'.node? old.place = none := by rw [hm.node, if_neg hne, if_pos rfl]
  have hfiles : ∀ place k, t.node? place = some (.file k) → place ≠ old.place → place ≠ new.place →
      t'.node? place = some (.file k) := by
    intro place k hk h1 h2
    rw [hm.node, if_neg h2, if_neg h1, hk]
  have hdirs : ∀ place, t.node? place = some .directory → t'.node? place = some .directory := by
    intro place hd
    have hold : place ≠ old.place := by
      rintro rfl
      cases hc.symm.trans hd
    rw [hm.node, if_neg fun h : place = new.place => hm.notDirectory (h ▸ hd), if_neg hold, hd]
  rcases ht with rfl | ⟨hbase, hr⟩
  · exact ⟨hm.sound, hl.1, hl.2, ⟨c, harrived⟩, hgone, hfiles, fun place hd => .inl (hdirs place hd)⟩
  · obtain ⟨names, hnames, hplace, hproper⟩ := ho.parent_place hbase
    have hroot : ¬ Tree.IsRoot old.parent.place := hplace ▸ not_root_below hnames hproper
    obtain ⟨hfreed, hdir, hempty⟩ := Tree.removeDirectory_ok hm.sound hroot hr
    have hstays : ∀ place k, t'.node? place = some (.file k) → t''.node? place = some (.file k) := by
      intro place k hk
      have hne : place ≠ old.parent.place := by
        rintro rfl
        cases hdir.symm.trans hk
      rw [hfreed.node, if_neg hne, hk]
    refine ⟨hfreed.sound, hl.1, hl.2, ⟨c, hstays _ _ harrived⟩, ?_,
      fun place k hk h1 h2 => hstays _ _ (hfiles place k hk h1 h2), fun place hd => ?_⟩
    · rw [hfreed.node, hgone, ite_self]
    · rw [hfreed.node]
      by_cases hp : place = old.parent.place
      · refine .inr ⟨?_, names, hnames, hp.trans hplace⟩
        have hmem := (hm.sound.node?_eq_some_iff (Tree.not_root_of_node? (by rw [harrived]; exact nofun))).1 harrived
        refine hp ▸ Tree.not_prefix_of_isEmptyAt hempty hroot hmem fun he => ?_
        rw [← he, harrived] at hdir
        cases hdir
      · rw [if_neg hp]
        exact .inl (hdirs place hd)

/-- Moving the file of a document does nothing, whether it fails or not, or it has shifted the file. -/
theorem runOn_moveFile {base old new : Path} {b : Base} (hf : b.files.Sound) (ho : Inside base old)
    (hn : new.hasNul = false → Inside base new) {k : Content} (hk : b.files.node? old.place = some (.file k)) :
    (∃ r, runOn (moveFile base old new) b = (r, b)) ∨
      ∃ c, runOn (moveFile base old new) b = (.ok (), c) ∧ Abreast b c ∧ old ≠ new ∧
        Shifted base old new b.files c.files := by
  by_cases heq : old = new
  · exact .inl ⟨.ok (), by simp [moveFile, heq]⟩
  rw [moveFile, if_pos (by simpa using heq)]
  simp only [runOn_bind, Action.runOn_readFiles]
  rcases b.files.look old with e | found
  · exact .inl ⟨.error e, rfl⟩
  cases found with
  | none => exact .inl ⟨.ok (), rfl⟩
  | some n =>
    simp only [Option.isSome_some, if_true, runOn_bind]
    rcases runOn_writeFiles_cases (fun t => t.rename old new) b with ⟨e, hw⟩ | ⟨c, hw, hr, hc⟩
    · exact .inl ⟨.error e, by rw [hw]⟩
    obtain ⟨hnul, -, hln, -⟩ := Tree.rename_inv hr
    have hnew := hn hnul
    have hne : old.place ≠ new.place := fun he => heq (ho.place_inj hnew he)
    have hmoved := Tree.rename_ok hf hnew.usable.toNormal hk hne hr
    rw [hw]
    dsimp only
    rcases runOn_tidy base ho.usable.parent.notNul c with ht | ⟨d, ht, hd, hbase, hrem⟩
    · exact .inr ⟨c, ht, hc, heq, .of_moved ho hne ⟨hnul, hln⟩ hk hmoved (.inl rfl)⟩
    · exact .inr ⟨d, ht, hc.trans hd, heq, .of_moved ho hne ⟨hnul, hln⟩ hk hmoved (.inr ⟨hbase, hrem⟩)⟩

/-- A path that does not go through a directory below the one that it leads to. -/
def Straight (base : Path) : Prop :=
  ∀ ns rest, base.names = ns ++ rest → ∀ names, names ≠ [] →
    Path.place { base with names := ns } ≠ base.place ++ names

theorem straight_of_plain {base : Path} (h : ".." ∉ base.names) : Straight base := by
  intro ns rest hns names hne he
  rw [hns, List.mem_append, not_or] at h
  have hplace : base.place = Path.place { base with names := ns } ++ rest := by
    rw [Path.place, hns, Place.follow_append, Place.follow_plain h.2]
    rfl
  have := congrArg List.length he
  rw [hplace, List.length_append, List.length_append] at this
  have := List.length_pos_iff.2 hne
  omega

/-- The way to the new path is still there, unless it went through the directory that was left. -/
theorem Shifted.locate {base old new : Path} {t t' : Tree} (h : Shifted base old new t t') (hb : Straight base)
    (hn : Inside base new) : t'.locate new = .ok new.place := by
  obtain ⟨names, hne, hnew, hproper⟩ := hn.names
  refine Tree.locate_mono h.located fun ns n rest hns hd => (h.directories _ hd).resolve_right ?_
  rintro ⟨haway, below, hbelow, hplace⟩
  have hns : base.names ++ names = ns ++ n :: rest := by rw [← hns, hnew]; rfl
  have hslashes : new.slashes = base.slashes := by rw [hnew]; rfl
  rcases List.append_eq_append_iff.1 hns with ⟨down, rfl, hdown⟩ | ⟨up, hup, -⟩
  · refine haway ?_
    have hdproper : ∀ m ∈ down, ProperName m := fun m hm => hproper m (hdown ▸ List.mem_append_left _ hm)
    have hdown' : Path.place ⟨new.slashes, base.names ++ down⟩ = base.place ++ down :=
      hslashes ▸ fileAt_place base hdproper
    rw [hdown', hnew, fileAt_place base hproper, hdown, ← List.append_assoc]
    exact List.prefix_append _ _
  · refine hb ns up hup below hbelow ?_
    rw [← hplace, ← hslashes]

/-- A file has been written anew, perhaps elsewhere, and the files of others are as they were. -/
structure Rehoused (old new : Path) (content : String) (t t' : Tree) : Prop where
  sound : t'.Sound
  node : t'.node? new.place = some (.file (.text content))
  kept : ∀ place c, t.node? place = some (.file c) → place ≠ old.place → place ≠ new.place →
    t'.node? place = some (.file c)

/-- A file is moved and then written. Between the two the work can fail only if the base directory is not reached
straight; then the file is gone from where it was. -/
theorem runOn_rehouse {base old new : Path} {b : Base} (hf : b.files.Sound) (ho : Inside base old)
    (hn : new.hasNul = false → Inside base new) {k : Content} (hk : b.files.node? old.place = some (.file k))
    (content : String) :
    let work := do
      moveFile base old new
      Action.writeFiles fun t => t.write new content
    (∃ e, runOn work b = (.error e, b)) ∨
      (∃ e c, runOn work b = (.error e, c) ∧ c.files.node? old.place = none ∧ ¬ Straight base) ∨
      ∃ c, runOn work b = (.ok (), c) ∧ Abreast b c ∧ new.hasNul = false ∧
        Rehoused old new content b.files c.files := by
  intro work
  rcases runOn_moveFile hf ho hn hk with ⟨r, hm⟩ | ⟨c, hm, hc, hne, hshift⟩
  · cases r with
    | error e => exact .inl ⟨e, by rw [runOn_bind, hm]⟩
    | ok u =>
      have hwork : runOn work b = runOn (Action.writeFiles fun t => t.write new content) b := by rw [runOn_bind, hm]
      rw [hwork]
      rcases runOn_writeFiles_cases (fun t => t.write new content) b with hw | ⟨d, hw, hwrite, hd⟩
      · exact .inl hw
      · have hnul := (Tree.onPath_ok hwrite).1
        have hwritten := Tree.write_ok hf (hn hnul).usable.toNormal hwrite
        refine .inr (.inr ⟨d, hw, hd, hnul, hwritten.sound, ?_, fun place j hj _ hne => ?_⟩)
        · rw [hwritten.node, if_pos rfl]
        · rw [hwritten.node, if_neg hne, hj]
  · have hwork : runOn work b = runOn (Action.writeFiles fun t => t.write new content) c := by rw [runOn_bind, hm]
    rw [hwork]
    rcases runOn_writeFiles_cases (fun t => t.write new content) c with ⟨e, hw⟩ | ⟨d, hw, hwrite, hd⟩
    · refine .inr (.inl ⟨e, c, hw, hshift.gone, fun hb => ?_⟩)
      -- the file has arrived, so with the way still open it can be written
      obtain ⟨j, hj⟩ := hshift.arrived
      have hnul : new.hasNul = false := hshift.notNul
      obtain ⟨t, hwrite⟩ := Tree.write_total hnul (hshift.locate hb (hn hnul)) (by rw [hj]; exact nofun) content
      rw [Action.runOn_writeFiles, hwrite] at hw
      cases hw
    · have hnul := hshift.notNul
      have hwritten := Tree.write_ok hshift.sound (hn hnul).usable.toNormal hwrite
      refine .inr (.inr ⟨d, hw, hc.trans hd, hnul, hwritten.sound, ?_, fun place j hj hold hne => ?_⟩)
      · rw [hwritten.node, if_pos rfl]
      · rw [hwritten.node, if_neg hne]
        exact hshift.files place j hj hold hne

inductive Rewriting (base : Path) (id category title content : String) (b : Base) :
    Except Fault Document × Base → Prop
  | refused (e : Fault) {b' : Base} (h : Stopped b b') : Rewriting base id category title content b (.error e, b')
  | stuck (e : Fault) {b' : Base} (x : Source) (found : x ∈ b.store.sources) (id_ : x.id = id)
      (moved : b'.files.node? (Path.ofText x.path).place = none) (crooked : ¬ Straight base) :
      Rewriting base id category title content b (.error e, b')
  | done (d : Document) {b' : Base} (x : Source) (found : x ∈ b.store.sources) (id_ : x.id = id)
      (inside : Inside base (target base category title))
      (placed : Placed (target base category title) (sourceAt base id category title content)
        (fun place => place = (Path.ofText x.path).place) b b')
      (issued : b'.issued = b.issued) : Rewriting base id category title content b (.ok d, b')

/-- Putting a changed document in place and dropping its chunks goes through. -/
theorem runOn_change {b : Base} (hs : b.store.Sound) (id : String) (hr : b.refusals.reading id = false)
    (change : Time → Document) {x : Source} (hx : x.id = id) (hd : ∀ now, (change now).source = x)
    (message : String) (fields : List (String × Json)) :
    ∃ d c, runOn (do
        Action.putDocument (change (← Action.now))
        Action.writeStore (Store.deleteChunks id)
        log .info "update_item" message fields
        Action.document id) b = (.ok d, c) ∧
      c.files = b.files ∧ c.issued = b.issued ∧ c.store.Sound ∧
      ∀ y, y ∈ c.store.sources ↔ y = x ∨ y ∈ b.store.sources ∧ y.id ≠ x.id := by
  obtain ⟨s, hput, hin⟩ := runOn_putDocument hs (change (Time.ofUnixMicros b.clock))
  rw [hd] at hin
  obtain ⟨s', hdel, hs', hsources⟩ := Store.deleteChunks_outcome hin.sound id
  let c : Base := { b with store := s' }
  have hdrop : runOn (Action.writeStore (Store.deleteChunks id)) { b with store := s } = (.ok (), c) := by
    rw [Action.runOn_writeStore, hdel]
  obtain ⟨es, hlog⟩ := runOn_log .info "update_item" message fields c
  have hmem : ∀ y, y ∈ s'.sources ↔ y = x ∨ y ∈ b.store.sources ∧ y.id ≠ x.id := fun y => by
    rw [hsources]
    exact hin.mem_sources y
  obtain ⟨d, hfound, -⟩ := Store.document_of_mem hs' ((hmem x).2 (.inl rfl))
  obtain ⟨es', hread⟩ := Action.runOn_document_admitted (b := c.noting es) hr
  rw [hx] at hfound
  rw [show (Store.document id (c.noting es).store).outcome = .ok d from hfound] at hread
  exact ⟨d, _, runOn_bind_ok.2 ⟨_, b, rfl, runOn_bind_ok.2 ⟨(), _, hput, runOn_bind_ok.2 ⟨(), _, hdrop,
    runOn_bind_ok.2 ⟨(), _, hlog, hread⟩⟩⟩⟩, rfl, rfl, hs', hmem⟩

/-- A document whose path leads from the base directory to a file. -/
def Filed (base : Path) (t : Tree) (path : String) : Prop :=
  ∃ p, Inside base p ∧ path = p.text ∧ ∃ c, t.node? p.place = some (.file c)

theorem runOn_update {base : Path} (hb : base.Normal) {b : Base} (hs : b.store.Sound) (hf : b.files.Sound) {id : String}
    (hfiled : ∀ x ∈ b.store.sources, x.id = id → Filed base b.files x.path) (category title content : String) :
    Rewriting base id category title content b (runOn (update base id category title content) b) := by
  have hsame := Stopped.refl hf
  simp only [update, runOn_bind, Action.runOn_ofExcept]
  cases hc : validName "category" category with
  | error e => exact .refused e hsame
  | ok c =>
  cases ht : validName "title" title with
  | error e => exact .refused e hsame
  | ok t =>
  obtain ⟨rfl, hcn, -⟩ := validName_ok hc
  obtain ⟨rfl, htn, -⟩ := validName_ok ht
  have hinside := target_inside hb hc ht
  dsimp only
  generalize hp : pathOf base (Text.strip category) (Text.strip title) = p
  have hp : target base category title = p := hp
  rw [hp] at hinside
  rcases Action.runOn_document id b with hread | ⟨hopen, es, hread⟩
  · rw [hread]
    exact .refused _ hsame
  rw [hread]
  cases hd : (Store.document id b.store).outcome with
  | error e => exact .refused e ⟨rfl, rfl, Tree.Grown.refl hf⟩
  | ok d =>
  obtain ⟨hmem, hid⟩ := Store.document_outcome hs hd
  obtain ⟨old, hold, hpath, k, hk⟩ := hfiled d.source hmem hid
  have hpath : d.path = old.text := hpath
  have hof : Path.ofText d.path = old := by rw [hpath, hold.ofText]
  dsimp only
  rcases runOn_writeFiles_cases (fun t => t.makeDirectories p.parent) (b.noting es) with
    ⟨e, hw⟩ | ⟨c, hw, hmake, hc'⟩
  · rw [hw]
    exact .refused e ⟨rfl, rfl, Tree.Grown.refl hf⟩
  obtain ⟨hgrown, -⟩ := Tree.makeDirectories_grown hf (hp ▸ (pathOf_normal hb hcn htn).parent) hmake
  have hcs : c.store = b.store := hc'.store
  have hci : c.issued = b.issued := hc'.issued
  rw [hw]
  simp only [hpath, hold.text_ne_empty, Bool.not_false, if_true, hold.ofText]
  rw [← bind_assoc, runOn_bind]
  rcases runOn_rehouse hgrown.sound hold hinside (hgrown.kept _ _ hk) content with
    ⟨e, hmove⟩ | ⟨e, c', hmove, hgone, hcrooked⟩ | ⟨c', hmove, hab, hnul, hhouse⟩
  · rw [hmove]
    exact .refused e ⟨hcs, hci, hgrown⟩
  · rw [hmove]
    exact .stuck e d.source hmem hid (by rw [show d.source.path = d.path from rfl, hof]; exact hgone) hcrooked
  rw [hmove]
  obtain ⟨d', c'', hchange, hfiles, hissued, hsound, hsources⟩ := runOn_change (b := c')
    (x := sourceAt base id category title content) (by rw [hab.store, hcs]; exact hs) id
    (by rw [hab.refusals, hc'.refusals]; exact hopen)
    (fun now => { d with
      category := Text.strip category, title := Text.strip title, content := content, path := p.text
      updated := some now })
    rfl (fun now => by rw [sourceAt, hp, ← hid]; rfl) "Updated knowledge item"
    [("id", .text id), ("title", .text (Text.strip title)), ("category", .text (Text.strip category))]
  dsimp only
  rw [hchange]
  rw [hab.store, hcs] at hsources
  refine .done d' d.source hmem hid (hp ▸ hinside hnul) ⟨?_, ?_, ?_, hsound, hsources⟩ ?_
  · rw [hfiles]
    exact hhouse.sound
  · rw [hp, hfiles]
    exact hhouse.node
  · intro place j hj hown hne
    rw [show d.source.path = d.path from rfl, hof] at hown
    rw [hp] at hne
    rw [hfiles]
    exact hhouse.kept place j (hgrown.kept _ _ hj) hown hne
  · rw [hissued, hab.issued, hci]

/-! Deleting. -/

/-- A document has been taken out, and no file but its own is gone. -/
structure TakenOut (x : Source) (b b' : Base) : Prop where
  files : b'.files.Sound
  kept : ∀ place c, b.files.node? place = some (.file c) → place ≠ (Path.ofText x.path).place →
    b'.files.node? place = some (.file c)
  sound : b'.store.Sound
  sources : ∀ y, y ∈ b'.store.sources ↔ y ∈ b.store.sources ∧ y.id ≠ x.id
  issued : b'.issued = b.issued

/-- Deleting the file of a document loses no other file. -/
theorem runOn_deleteFile {b : Base} (hf : b.files.Sound) (path : String) :
    (∃ e, runOn (deleteFile path) b = (.error e, b)) ∨
      ∃ c, runOn (deleteFile path) b = (.ok (), c) ∧ Abreast b c ∧ c.files.Sound ∧
        ∀ place k, b.files.node? place = some (.file k) → place ≠ (Path.ofText path).place →
          c.files.node? place = some (.file k) := by
  simp only [deleteFile, runOn_bind, Action.runOn_attempt]
  rcases runOn_writeFiles_cases (fun t => t.deleteIfThere (Path.ofText path)) b with ⟨e, hw⟩ | ⟨c, hw, hdel, hc⟩
  · rw [hw]
    dsimp only
    by_cases he : e.isA .system
    · simp only [he, Bool.not_true, Bool.false_eq_true, if_false]
      exact .inr ⟨b.noting _, rfl, ⟨rfl, rfl, rfl⟩, hf, fun _ _ hk _ => hk⟩
    · exact .inl ⟨e, by simp [he]⟩
  · rw [hw]
    refine .inr ⟨c, rfl, hc, ?_⟩
    rcases Tree.deleteIfThere_ok hf hdel with hsame | hfreed
    · rw [hsame]
      exact ⟨hf, fun _ _ hk _ => hk⟩
    · exact ⟨hfreed.sound, fun place k hk hne => by rw [hfreed.node, if_neg hne, hk]⟩

theorem runOn_delete {b : Base} (hs : b.store.Sound) (hf : b.files.Sound) (id : String) :
    (∃ e b', runOn (delete id) b = (.error e, b') ∧ Stopped b b') ∨
      ∃ b' x, runOn (delete id) b = (.ok (), b') ∧ x ∈ b.store.sources ∧ x.id = id ∧ TakenOut x b b' := by
  simp only [delete, runOn_bind]
  rcases Action.runOn_document id b with hread | ⟨-, es, hread⟩
  · rw [hread]
    exact .inl ⟨_, b, rfl, Stopped.refl hf⟩
  rw [hread]
  cases hd : (Store.document id b.store).outcome with
  | error e => exact .inl ⟨e, _, rfl, rfl, rfl, Tree.Grown.refl hf⟩
  | ok d =>
  obtain ⟨hmem, hid⟩ := Store.document_outcome hs hd
  have hstore : ∀ c : Base, c.store = b.store → c.issued = b.issued → c.files.Sound →
      (∀ place k, b.files.node? place = some (.file k) → place ≠ (Path.ofText d.path).place →
        c.files.node? place = some (.file k)) →
      ∃ b', runOn (do
          Action.writeStore (Store.delete id)
          log .info "delete_item" "Deleted knowledge item" [("id", .text id)]) c = (.ok (), b') ∧
        TakenOut d.source b b' := by
    intro c hcs hci hcf hkept
    obtain ⟨s, hdel, hsound, hsources⟩ := Store.delete_outcome hs hmem
    have hdel : Store.delete id c.store = .ok s := by rwa [hcs, ← hid]
    let c' : Base := { c with store := s }
    obtain ⟨es, hlog⟩ := runOn_log .info "delete_item" "Deleted knowledge item" [("id", .text id)] c'
    refine ⟨c'.noting es, runOn_bind_ok.2 ⟨(), c', ?_, hlog⟩, hcf, hkept, hsound, hsources, hci⟩
    rw [Action.runOn_writeStore, hdel]
  dsimp only
  by_cases hp : d.path.isEmpty
  · simp only [hp, Bool.not_true, Bool.false_eq_true, if_false]
    obtain ⟨b', hb', hout⟩ := hstore (b.noting es) rfl rfl hf fun _ _ hk _ => hk
    exact .inr ⟨b', d.source, hb', hmem, hid, hout⟩
  · simp only [hp, Bool.not_false, if_true]
    rw [runOn_bind]
    rcases runOn_deleteFile (b := b.noting es) hf d.path with ⟨e, hfile⟩ | ⟨c, hfile, hc, hcf, hkept⟩
    · rw [hfile]
      exact .inl ⟨e, _, rfl, rfl, rfl, Tree.Grown.refl hf⟩
    · rw [hfile]
      obtain ⟨b', hb', hout⟩ := hstore c hc.store hc.issued hcf hkept
      exact .inr ⟨b', d.source, hb', hmem, hid, hout⟩

end Compendium.Catalog
