import Compendium.Proofs.Catalog.Items

/-!
Which runs leave every file with the document that it belongs to. Creating asks
the store whether a path is taken, but not the files, and rewriting asks
neither. Files are lost, and documents come to share a file, exactly when one of
the two goes through at a path that is taken.
-/
namespace Compendium.Catalog

open Compendium.Action (runOn)

/-- What is done on one base directory. Between two steps time passes, and store calls may come to be refused. -/
inductive Operation where
  | meanwhile (clock : Nat) (refusals : Refusals)
  | scan
  | create (category title content : String)
  | update (id category title content : String)
  | delete (id : String)

namespace Operation

def work (base : Path) : Operation → Action Unit
  | .meanwhile clock refusals => Action.update fun b => { b with clock := clock, refusals := refusals }
  | .scan => (fun _ => ()) <$> Catalog.scan base
  | .create category title content => (fun _ => ()) <$> Catalog.create base category title content
  | .update id category title content => (fun _ => ()) <$> Catalog.update base id category title content
  | .delete id => Catalog.delete id

def Writes : Operation → Prop
  | .create _ _ _ => True
  | .update _ _ _ _ => True
  | _ => False

/-- Where the file lies that a rewritten document has had so far. -/
def Owns (b : Base) : Operation → Place → Prop
  | .update id _ _ _, place => ∃ x ∈ b.store.sources, x.id = id ∧ place = (Path.ofText x.path).place
  | _, _ => False

end Operation

def step (base : Path) (b : Base) (op : Operation) : Base := (runOn (op.work base) b).2

def Succeeds (base : Path) (b : Base) (op : Operation) : Prop := (runOn (op.work base) b).1 = .ok ()

/-- Every file but the operation's own is as it was. -/
def Spares (base : Path) (b : Base) (op : Operation) : Prop :=
  ∀ place c, b.files.node? place = some (.file c) → ¬ op.Owns b place →
    (step base b op).files.node? place = some (.file c)

/-- No file is lost to an operation that writes, and afterwards no two documents have one path. -/
def Harmless (base : Path) (b : Base) (op : Operation) : Prop :=
  (op.Writes → Spares base b op) ∧ (step base b op).store.PathsDiffer

/-- An operation goes through although its path is taken: by a file with another content that is not its own, or by
another document. -/
def Takes (base : Path) (b : Base) (op : Operation) : Prop :=
  Succeeds base b op ∧
    match op with
    | .create category title content =>
      ∃ c, b.files.node? (target base category title).place = some (.file c) ∧ c ≠ .text content
    | .update id category title content =>
      ∃ x ∈ b.store.sources, x.id = id ∧ x.path ≠ (target base category title).text ∧
        ((∃ c, b.files.node? (target base category title).place = some (.file c) ∧ c ≠ .text content) ∨
          ∃ y ∈ b.store.sources, y.path = (target base category title).text)
    | _ => False

/-- A rewriting fails after it has moved its file away. -/
def Strands (base : Path) (b : Base) (op : Operation) : Prop :=
  ¬ Succeeds base b op ∧
    match op with
    | .update id _ _ _ =>
      ∃ x ∈ b.store.sources, x.id = id ∧ (step base b op).files.node? (Path.ofText x.path).place = none
    | _ => False

def Every (base : Path) (P : Base → Operation → Prop) : Base → List Operation → Prop
  | _, [] => True
  | b, op :: rest => P b op ∧ Every base P (step base b op) rest

/-- Documents with paths of their own below the base directory, and each with its file. -/
structure Owned (base : Path) (b : Base) : Prop where
  store : b.store.Sound
  files : b.files.Sound
  named : Named b
  paths : b.store.PathsDiffer
  filed : ∀ x ∈ b.store.sources, Filed base b.files x.path

/-! What a document that is put in place does to the others. -/

section
variable {base p : Path} {x : Source} {own : Place → Prop} {b b' : Base}

/-- The one file that can be lost is the one that stood at the path. -/
theorem Placed.spares_iff (h : Placed p x own b b') :
    (∀ place c, b.files.node? place = some (.file c) → ¬ own place → b'.files.node? place = some (.file c)) ↔
      (¬ own p.place → ∀ c, b.files.node? p.place = some (.file c) → c = .text x.content) := by
  constructor
  · intro hs hown c hc
    have := (hs _ c hc hown).symm.trans h.node
    exact Node.file.inj (Option.some.inj this)
  · intro hs place c hc hown
    by_cases hp : place = p.place
    · subst hp
      rw [hs hown c hc]
      exact h.node
    · exact h.kept place c hc hown hp

theorem Placed.owned (h : Placed p x own b b') (ho : Owned base b) (hp : Inside base p) (hx : x.path = p.text)
    (hown : ∀ y ∈ b.store.sources, y.id ≠ x.id → ¬ own (Path.ofText y.path).place)
    (hname : ∃ n ≤ b'.issued, x.id = Action.idText n) (hle : b.issued ≤ b'.issued) (hd : b'.store.PathsDiffer) :
    Owned base b' where
  store := h.sound
  files := h.files
  named y hy := by
    rcases (h.sources y).1 hy with rfl | ⟨hy, -⟩
    · exact hname
    · obtain ⟨n, hn, hi⟩ := ho.named y hy
      exact ⟨n, Nat.le_trans hn hle, hi⟩
  paths := hd
  filed y hy := by
    rcases (h.sources y).1 hy with rfl | ⟨hy', hne⟩
    · exact ⟨p, hp, hx, _, h.node⟩
    · obtain ⟨q, hq, hpath, c, hc⟩ := ho.filed y hy'
      have hplace : q.place ≠ p.place := by
        intro he
        have hsame : y.path = x.path := by rw [hpath, hx, hq.place_inj hp he]
        exact hne (hd y hy x ((h.sources x).2 (.inl rfl)) hsame)
      have hnot := hown y hy' hne
      rw [hpath, hq.ofText] at hnot
      exact ⟨q, hq, hpath, c, h.kept _ c hc hnot hplace⟩

end

/-! Single steps. -/

section
variable {base : Path} {b b' : Base}

theorem Filed.grown {t t' : Tree} {path : String} (h : Filed base t path) (hg : t.Grown t') : Filed base t' path := by
  obtain ⟨p, hp, hpath, c, hc⟩ := h
  exact ⟨p, hp, hpath, c, hg.kept _ _ hc⟩

/-- Documents that have their files at one place are the same. -/
theorem Owned.place_inj (h : Owned base b) {x y : Source} (hx : x ∈ b.store.sources) (hy : y ∈ b.store.sources)
    (he : (Path.ofText x.path).place = (Path.ofText y.path).place) : x.id = y.id := by
  obtain ⟨p, hp, hpath, -⟩ := h.filed x hx
  obtain ⟨q, hq, hqath, -⟩ := h.filed y hy
  rw [hpath, hqath, hp.ofText, hq.ofText] at he
  exact h.paths x hx y hy (by rw [hpath, hqath, hp.place_inj hq he])

theorem Owned.stopped (h : Owned base b) (hs : Stopped b b') : Owned base b' where
  store := hs.store ▸ h.store
  files := hs.files.sound
  named x hx := by
    rw [hs.store] at hx
    rw [hs.issued]
    exact h.named x hx
  paths := hs.store ▸ h.paths
  filed x hx := (h.filed x (hs.store ▸ hx)).grown hs.files

theorem Owned.takenOut (h : Owned base b) {x : Source} (hx : x ∈ b.store.sources) (ht : TakenOut x b b') :
    Owned base b' where
  store := ht.sound
  files := ht.files
  named y hy := by
    rw [ht.issued]
    exact h.named y ((ht.sources y).1 hy).1
  paths y hy z hz he := h.paths y ((ht.sources y).1 hy).1 z ((ht.sources z).1 hz).1 he
  filed y hy := by
    obtain ⟨hy, hne⟩ := (ht.sources y).1 hy
    obtain ⟨p, hp, hpath, c, hc⟩ := h.filed y hy
    refine ⟨p, hp, hpath, c, ht.kept _ c hc fun he => hne (h.place_inj hy hx ?_)⟩
    rw [hpath, hp.ofText, he]

/-- A scan leaves every document with a path and a file of its own. -/
theorem Owned.scan (h : Owned base b) (hb : base.Normal) : Owned base (runOn (Catalog.scan base) b).2 := by
  rcases runOn_scan hb h.store h.files with ⟨e, hrun⟩ | ⟨t, changed, b', hrun, hgrown, husable, hscan⟩
  · rwa [hrun]
  rw [hrun]
  refine ⟨hscan.sound, hscan.files ▸ hgrown.sound, hscan.named h.named, hscan.paths h.paths, fun x hx => ?_⟩
  rw [hscan.files]
  by_cases hi : x.id ∈ changed
  · obtain ⟨names, hn, hx⟩ := hscan.fromFile x hx hi
    obtain ⟨c, -, hc, -⟩ := Tree.read_says hx.content
    obtain ⟨hne, hproper⟩ := filesIn_proper hgrown.sound hn
    exact ⟨fileAt base names, ⟨filesIn_usable husable hgrown.sound names hn, names, hne, rfl, hproper⟩,
      hx.path, c, hc⟩
  · exact (h.filed x (hscan.unreported x hx hi)).grown hgrown

end

section
variable {base : Path} {b : Base}

theorem map_unit_eq_ok {α : Type} (r : Except Fault α) : (r.map fun _ => ()) = .ok () ↔ ∃ a, r = .ok a := by
  cases r with
  | error e => simp [Except.map]
  | ok a => simp [Except.map]

/-- An operation that has stopped has done no harm. -/
theorem Owned.harmless_of_stopped (h : Owned base b) {op : Operation} (hs : Stopped b (step base b op)) :
    Harmless base b op :=
  ⟨fun _ _ _ hc _ => hs.files.kept _ _ hc, (h.stopped hs).paths⟩

/-- Creating is harmless unless the path is taken, and then every document still has its own. -/
theorem Owned.create (h : Owned base b) (hb : base.Normal) (category title content : String) :
    let op := Operation.create category title content
    (Harmless base b op ↔ ¬ Takes base b op) ∧ (Harmless base b op → Owned base (step base b op)) := by
  intro op
  have hrun := runOn_create hb h.store h.files category title content
  have hstep : step base b op = (runOn (Catalog.create base category title content) b).2 := by
    simp only [step, op, Operation.work, Action.runOn_map]
  have hsucceeds : Succeeds base b op ↔ ∃ d, (runOn (Catalog.create base category title content) b).1 = .ok d := by
    simp only [Succeeds, op, Operation.work, Action.runOn_map, map_unit_eq_ok]
  generalize runOn (Catalog.create base category title content) b = r at hrun hstep hsucceeds
  cases hrun with
  | refused e hs =>
    have hs : Stopped b (step base b op) := hstep ▸ hs
    have hno : ¬ Takes base b op := fun ht => by simpa using hsucceeds.1 ht.1
    exact ⟨iff_of_true (h.harmless_of_stopped hs) hno, fun _ => h.stopped hs⟩
  | done d inside free placed issued =>
    have hpaths : (step base b op).store.PathsDiffer := by
      rw [hstep]
      exact (Store.pathsDiffer_iff placed.sources h.paths).2 fun y hy _ => free y hy
    have hspares : Spares base b op ↔ ∀ c, b.files.node? (target base category title).place = some (.file c) →
        c = .text content := by
      rw [Spares, hstep]
      exact placed.spares_iff.trans ⟨fun hs => hs not_false, fun hs _ => hs⟩
    constructor
    · have hok : Succeeds base b op := hsucceeds.2 ⟨d, rfl⟩
      constructor
      · rintro ⟨hs, -⟩ ⟨-, c, hc, hne⟩
        exact hne (hspares.1 (hs trivial) c hc)
      · intro ht
        refine ⟨fun _ => hspares.2 fun c hc => ?_, hpaths⟩
        by_contra hne
        exact ht ⟨hok, c, hc, hne⟩
    · intro _
      rw [hstep] at hpaths ⊢
      exact placed.owned h inside rfl (fun _ _ _ => not_false) ⟨_, Nat.le_of_eq issued.symm, rfl⟩
        (by rw [issued]; exact Nat.le_succ _) hpaths

/-- Where the file of the rewritten document lies, its id tells. -/
theorem Owned.owns_update (h : Owned base b) {x : Source} (hx : x ∈ b.store.sources) (category title content : String)
    (place : Place) :
    (Operation.update x.id category title content).Owns b place ↔ place = (Path.ofText x.path).place := by
  constructor
  · rintro ⟨y, hy, hi, rfl⟩
    rw [Store.eq_of_mem_sources h.store hy hx hi]
  · exact fun hp => ⟨x, hx, rfl, hp⟩

/-- A rewriting that went through has done no harm exactly if nothing stood in its place, or if it stayed there. -/
theorem Owned.placed_harmless_iff (h : Owned base b) {x : Source} (hx : x ∈ b.store.sources)
    {category title content : String} {b' : Base} (hp : Inside base (target base category title))
    (hplaced : Placed (target base category title) (sourceAt base x.id category title content)
      (fun place => place = (Path.ofText x.path).place) b b')
    (hstep : step base b (.update x.id category title content) = b') :
    Harmless base b (.update x.id category title content) ↔
      (x.path ≠ (target base category title).text →
        (∀ c, b.files.node? (target base category title).place = some (.file c) → c = .text content) ∧
          ∀ y ∈ b.store.sources, y.path ≠ (target base category title).text) := by
  obtain ⟨q, hq, hpath, -⟩ := h.filed x hx
  have hown : (target base category title).place = (Path.ofText x.path).place ↔
      x.path = (target base category title).text := by
    rw [hpath, hq.ofText]
    constructor
    · exact fun he => by rw [hp.place_inj hq he]
    · exact fun he => by rw [Path.text_inj hq.usable.toNormal hp.usable.toNormal he]
  have hspares : Spares base b (.update x.id category title content) ↔
      (x.path ≠ (target base category title).text →
        ∀ c, b.files.node? (target base category title).place = some (.file c) → c = .text content) := by
    simp only [Spares, hstep, h.owns_update hx]
    exact hplaced.spares_iff.trans (by rw [hown]; rfl)
  have hpaths := Store.pathsDiffer_iff hplaced.sources h.paths
  rw [Harmless, hstep, hpaths]
  constructor
  · rintro ⟨hs, hd⟩ hne
    refine ⟨hspares.1 (hs trivial) hne, fun y hy he => ?_⟩
    by_cases hi : y.id = x.id
    · exact hne (Store.eq_of_mem_sources h.store hy hx hi ▸ he)
    · exact hd y hy hi he
  · intro hall
    refine ⟨fun _ => hspares.2 fun hne => (hall hne).1, fun y hy hi he => ?_⟩
    by_cases hsame : x.path = (target base category title).text
    · exact hi (h.paths y hy x hx (he.trans hsame.symm))
    · exact (hall hsame).2 y hy he

/-- Rewriting is harmless unless the path is taken, where it does not fail after it has moved the file away. -/
theorem Owned.update (h : Owned base b) (hb : base.Normal) (id category title content : String) :
    let op := Operation.update id category title content
    ¬ Strands base b op →
      (Harmless base b op ↔ ¬ Takes base b op) ∧ (Harmless base b op → Owned base (step base b op)) := by
  intro op hstrands
  have hrun := runOn_update hb h.store h.files (fun x hx (_ : x.id = id) => h.filed x hx) category title content
  have hstep : step base b op = (runOn (Catalog.update base id category title content) b).2 := by
    simp only [step, op, Operation.work, Action.runOn_map]
  have hsucceeds : Succeeds base b op ↔
      ∃ d, (runOn (Catalog.update base id category title content) b).1 = .ok d := by
    simp only [Succeeds, op, Operation.work, Action.runOn_map, map_unit_eq_ok]
  generalize runOn (Catalog.update base id category title content) b = r at hrun hstep hsucceeds
  cases hrun with
  | refused e hs =>
    have hs : Stopped b (step base b op) := hstep ▸ hs
    have hno : ¬ Takes base b op := fun ht => by simpa using hsucceeds.1 ht.1
    exact ⟨iff_of_true (h.harmless_of_stopped hs) hno, fun _ => h.stopped hs⟩
  | stuck e x found id_ moved _ =>
    refine absurd ⟨fun hok => by simpa using hsucceeds.1 hok, x, found, id_, ?_⟩ hstrands
    rw [hstep]
    exact moved
  | done d x found id_ inside placed issued =>
    subst id_
    have hok : Succeeds base b op := hsucceeds.2 ⟨d, rfl⟩
    have hharmless := h.placed_harmless_iff found inside placed hstep
    constructor
    · rw [hharmless]
      constructor
      · rintro hall ⟨-, y, hy, hi, hne, htaken⟩
        rw [Store.eq_of_mem_sources h.store hy found hi] at hne
        rcases htaken with ⟨c, hc, hcne⟩ | ⟨z, hz, hzp⟩
        · exact hcne ((hall hne).1 c hc)
        · exact (hall hne).2 z hz hzp
      · intro ht hne
        refine ⟨fun c hc => ?_, fun y hy he => ht ⟨hok, x, found, rfl, hne, .inr ⟨y, hy, he⟩⟩⟩
        by_contra hcne
        exact ht ⟨hok, x, found, rfl, hne, .inl ⟨c, hc, hcne⟩⟩
    · intro hh
      have hpaths := hh.2
      rw [hstep] at hpaths ⊢
      obtain ⟨n, hn, hi⟩ := h.named x found
      refine placed.owned h inside rfl (fun y hy hne he => ?_) ⟨n, ?_, hi⟩
        (Nat.le_of_eq issued.symm) hpaths
      · exact hne (show y.id = x.id from h.place_inj hy found he)
      · rw [issued]
        exact hn

/-- A step that strands no document does no harm unless it takes a path that is taken, and what does no harm leaves
every document with its file. -/
theorem Owned.step (h : Owned base b) (hb : base.Normal) {op : Operation} (hs : ¬ Strands base b op) :
    (Harmless base b op ↔ ¬ Takes base b op) ∧ (Harmless base b op → Owned base (step base b op)) := by
  have hquiet : ¬ op.Writes → ¬ Takes base b op → Owned base (Catalog.step base b op) →
      (Harmless base b op ↔ ¬ Takes base b op) ∧ (Harmless base b op → Owned base (Catalog.step base b op)) :=
    fun hw ht ho => ⟨iff_of_true ⟨fun h => absurd h hw, ho.paths⟩ ht, fun _ => ho⟩
  cases op with
  | meanwhile clock refusals =>
    exact hquiet not_false And.right ⟨h.store, h.files, h.named, h.paths, h.filed⟩
  | scan =>
    refine hquiet not_false And.right ?_
    simp only [Catalog.step, Operation.work, Action.runOn_map]
    exact h.scan hb
  | create category title content => exact h.create hb category title content
  | update id category title content => exact h.update hb id category title content hs
  | delete id =>
    refine hquiet not_false And.right ?_
    simp only [Catalog.step, Operation.work]
    rcases runOn_delete h.store h.files id with ⟨e, b', hrun, hstop⟩ | ⟨b', x, hrun, hx, -, hout⟩
    · rw [hrun]
      exact h.stopped hstop
    · rw [hrun]
      exact h.takenOut hx hout

/-- No document is stranded where the base directory does not lie behind one of its own categories. -/
theorem Owned.not_strands (h : Owned base b) (hb : base.Normal) (hs : Straight base) (op : Operation) :
    ¬ Strands base b op := by
  rintro ⟨hfail, hop⟩
  cases op with
  | update id category title content =>
    obtain ⟨x, hx, hi, hgone⟩ := hop
    have hrun := runOn_update hb h.store h.files (fun x hx (_ : x.id = id) => h.filed x hx) category title content
    simp only [Catalog.step, Succeeds, Operation.work, Action.runOn_map, map_unit_eq_ok] at hfail hgone
    generalize runOn (Catalog.update base id category title content) b = r at hrun hfail hgone
    cases hrun with
    | refused e hstop =>
      obtain ⟨p, hp, hpath, c, hc⟩ := (h.filed x hx).grown hstop.files
      rw [hpath, hp.ofText, hc] at hgone
      cases hgone
    | stuck e y _ _ _ hcrooked => exact hcrooked hs
    | done d _ _ _ _ _ _ => exact hfail ⟨d, rfl⟩
  | _ => exact hop

end

/-! Runs. -/

/-- What is the same at each step as long as an invariant holds is the same of a run. -/
theorem every_iff {base : Path} {P Q : Base → Operation → Prop} {J : Base → Prop}
    (h : ∀ b op, J b → (P b op ↔ Q b op) ∧ (P b op → J (step base b op))) :
    ∀ {b : Base} (ops : List Operation), J b → (Every base P b ops ↔ Every base Q b ops) := by
  intro b ops
  induction ops generalizing b with
  | nil => exact fun _ => Iff.rfl
  | cons op rest ih =>
    intro hb
    obtain ⟨hiff, hnext⟩ := h b op hb
    constructor
    · exact fun ⟨hp, hrest⟩ => ⟨hiff.1 hp, (ih (hnext hp)).1 hrest⟩
    · exact fun ⟨hq, hrest⟩ => ⟨hiff.2 hq, (ih (hnext (hiff.2 hq))).2 hrest⟩

/-- In an empty store there is nothing to lose. -/
theorem owned_new {base : Path} {b : Base} (hnew : b.store.New) (hf : b.files.Sound) : Owned base b := by
  have hnone : ∀ x, x ∉ b.store.sources := fun x => by
    rw [hnew.holds_nothing.1]
    exact List.not_mem_nil
  exact ⟨hnew.sound, hf, fun x hx => absurd hx (hnone x), fun x hx => absurd hx (hnone x),
    fun x hx => absurd hx (hnone x)⟩

/-- From an empty store and any directory: no file but an operation's own is lost and no two documents come to have one
path, exactly as long as no operation goes through at a path that is taken. A base directory that lies behind one of its
own categories asks for more, that no rewriting strands its document halfway. -/
theorem no_clobbering_iff (text : String) (start : Base) (hnew : start.store.New) (hfiles : start.files.Sound)
    (ops : List Operation) :
    let base := Path.ofText text
    (Every base (fun b op => Harmless base b op ∧ ¬ Strands base b op) start ops ↔
      Every base (fun b op => ¬ Takes base b op ∧ ¬ Strands base b op) start ops) ∧
    (Straight base →
      (Every base (Harmless base) start ops ↔ Every base (fun b op => ¬ Takes base b op) start ops)) := by
  intro base
  have hb : base.Normal := Path.ofText_normal text
  have hstart : Owned base start := owned_new hnew hfiles
  constructor
  · refine every_iff (J := Owned base) (fun b op h => ⟨and_congr_left fun hs => (h.step hb hs).1, ?_⟩) ops hstart
    exact fun ⟨hh, hs⟩ => (h.step hb hs).2 hh
  · intro hstraight
    exact every_iff (J := Owned base) (fun b op h => h.step hb (h.not_strands hb hstraight op)) ops hstart

/-! A base directory in the directory of work. -/

def kb : Path := ⟨0, ["kb"]⟩

/-- A document is created, and then moved to another category. -/
theorem no_clobbering_iff_small :
    Every kb (Harmless kb) {} [.create "X" "a" "1", .update "id-0001" "Y" "a" "2"] := by
  have hempty : Tree.Sound {} := ⟨List.nodup_nil, nofun, nofun⟩
  refine ((no_clobbering_iff "kb" {} .memory hempty _).2 (straight_of_plain (by decide))).2 ⟨?_, ?_, trivial⟩
  · rintro ⟨-, c, hc, -⟩
    have hfree : ({} : Base).files.node? (target kb "X" "a").place = none := by decide +kernel
    cases hfree.symm.trans hc
  · let b : Base := step kb {} (.create "X" "a" "1")
    rintro ⟨-, x, hx, -, -, ⟨c, hc, -⟩ | ⟨y, hy, hp⟩⟩
    · have hfree : b.files.node? (target kb "Y" "a").place = none := by decide +kernel
      cases hfree.symm.trans hc
    · have hone : b.store.sources.all fun y => y.path ≠ (target kb "Y" "a").text := by decide +kernel
      have hp : y.path = (target kb "Y" "a").text := hp
      exact absurd hp (by simpa using List.all_eq_true.1 hone y hy)

/-- A document that is moved to where another one is takes that one's file, and its path. -/
theorem update_takes_the_path_of_another :
    ¬ Every kb (Harmless kb) {} [.create "X" "a" "1", .create "X" "b" "2", .update "id-0001" "X" "b" "3"] := by
  rintro ⟨-, -, ⟨-, hd⟩, -⟩
  let b : Base := step kb {} (.create "X" "a" "1")
  let c : Base := step kb b (.create "X" "b" "2")
  let d : Base := step kb c (.update "id-0001" "X" "b" "3")
  have hmoved : (⟨"id-0001", "X", "b", "3", "kb/X/b.md"⟩ : Source) ∈ d.store.sources := by decide +kernel
  have hother : (⟨"id-0002", "X", "b", "2", "kb/X/b.md"⟩ : Source) ∈ d.store.sources := by decide +kernel
  exact absurd (hd _ hmoved _ hother rfl) (by decide)

end Compendium.Catalog
