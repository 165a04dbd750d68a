import Mathlib.Data.List.Induction
import Mathlib.Data.List.Nodup
import Compendium.Files.Tree
import Compendium.Proofs.Files.Path

/-!
Trees of files in good order, and what each piece of work on them changes.
A path leads to one place only, which its names tell; whether it leads
there is the tree's affair.
-/
namespace Compendium

/-- A name that a node can have. -/
structure ProperName (n : String) : Prop where
  isName : Path.IsName n
  notUp : n ≠ ".."
  notNul : '\x00' ∉ n.toList

instance (n : String) : Decidable (ProperName n) :=
  decidable_of_iff (Path.IsName n ∧ n ≠ ".." ∧ '\x00' ∉ n.toList)
    ⟨fun h => ⟨h.1, h.2.1, h.2.2⟩, fun h => ⟨h.1, h.2, h.3⟩⟩

/-- A place that a path can lead to: proper names, perhaps behind the top of absolute paths. -/
def Place.Reachable (place : Place) : Prop :=
  ∃ names, (place = names ∨ place = "/" :: names) ∧ ∀ n ∈ names, ProperName n

namespace Place

theorem Reachable.dropLast {place : Place} (h : Reachable place) : Reachable place.dropLast := by
  obtain ⟨names, rfl | rfl, hn⟩ := h
  · exact ⟨place.dropLast, .inl rfl, fun n hm => hn n (List.dropLast_subset _ hm)⟩
  · cases names with
    | nil => exact ⟨[], .inl rfl, nofun⟩
    | cons n rest => exact ⟨(n :: rest).dropLast, .inr rfl, fun m hm => hn m (List.dropLast_subset _ hm)⟩

theorem Reachable.append {place : Place} (h : Reachable place) {n : String} (hn : ProperName n) :
    Reachable (place ++ [n]) := by
  obtain ⟨names, hp, hnames⟩ := h
  refine ⟨names ++ [n], hp.imp (congrArg (· ++ [n])) (congrArg (· ++ [n])), fun m hm => ?_⟩
  rcases List.mem_append.1 hm with hm | hm
  · exact hnames m hm
  · exact List.mem_singleton.1 hm ▸ hn

end Place

/-- Where names lead from a place, whatever stands there. -/
def Place.follow : Place → List String → Place
  | here, [] => here
  | here, n :: r => follow (if n = ".." then here.dropLast else here ++ [n]) r

/-- The place that a path leads to if it leads anywhere. -/
def Path.place (p : Path) : Place := Place.follow (if p.slashes = 0 then [] else Tree.top) p.names

theorem Place.follow_append (here : Place) (ms ns : List String) :
    follow here (ms ++ ns) = follow (follow here ms) ns := by
  induction ms generalizing here with
  | nil => rfl
  | cons m ms ih => rw [List.cons_append, follow, ih, follow]

/-- Without two dots the names lead down, one after the other. -/
theorem Place.follow_plain {names : List String} (h : ".." ∉ names) (here : Place) :
    follow here names = here ++ names := by
  induction names generalizing here with
  | nil => rw [follow, List.append_nil]
  | cons n rest ih =>
    rw [List.mem_cons, not_or] at h
    rw [follow, if_neg (Ne.symm h.1), ih h.2, List.append_assoc, List.singleton_append]

theorem Place.follow_reachable {names : List String} (h : ∀ n ∈ names, n = ".." ∨ ProperName n) {here : Place}
    (hh : Reachable here) : Reachable (follow here names) := by
  induction names generalizing here with
  | nil => exact hh
  | cons n rest ih =>
    rw [List.forall_mem_cons] at h
    rw [follow]
    refine ih h.2 ?_
    split
    · exact hh.dropLast
    · rename_i hn
      exact hh.append (h.1.resolve_left hn)

/-- A path in normal form that a file can have. -/
structure Path.Usable (p : Path) : Prop extends p.Normal where
  notNul : p.hasNul = false

theorem Path.Usable.proper {p : Path} (h : p.Usable) : ∀ n ∈ p.names, n = ".." ∨ ProperName n := by
  intro n hn
  by_cases hup : n = ".."
  · exact .inl hup
  · have hnul := h.notNul
    simp only [hasNul, List.any_eq_false] at hnul
    exact .inr ⟨h.names n hn, hup, by simpa using hnul n hn⟩

theorem Path.Usable.reachable {p : Path} (h : p.Usable) : Place.Reachable p.place := by
  refine Place.follow_reachable h.proper ?_
  split
  · exact ⟨[], .inl rfl, nofun⟩
  · exact ⟨[], .inr rfl, nofun⟩

namespace Tree

/-- The places that are always there. -/
def IsRoot (place : Place) : Prop := place = [] ∨ place = top

theorem node?_root (t : Tree) {place : Place} (h : IsRoot place) : t.node? place = some .directory := by
  rw [node?, if_pos]
  simpa [IsRoot] using h

theorem node?_of_not_root (t : Tree) {place : Place} (h : ¬ IsRoot place) :
    t.node? place = Keyed.get? place t.nodes := by
  rw [node?, if_neg]
  simpa [IsRoot] using h

theorem not_root_of_node? {t : Tree} {place : Place} (h : t.node? place ≠ some .directory) : ¬ IsRoot place :=
  fun hr => h (t.node?_root hr)

/-- A way that can be gone ends where its names lead, whatever stands there. -/
theorem walk_eq_follow {t : Tree} {names : List String} :
    ∀ {here place : Place}, t.walk here names = .ok place → place = Place.follow here names := by
  induction names with
  | nil =>
    intro here place h
    cases h
    rfl
  | cons n rest ih =>
    intro here place h
    rw [walk] at h
    rw [Place.follow]
    split at h
    · cases h
    · cases h
    · split at h
      · rename_i hn
        rw [if_pos hn]
        exact ih h
      · rename_i hn
        split at h
        · cases h
        · rw [if_neg hn]
          exact ih h

theorem locate_eq_place {t : Tree} {p : Path} {place : Place} (h : t.locate p = .ok place) : place = p.place := by
  rw [locate] at h
  split at h
  · cases h
  · exact walk_eq_follow h

/-- Names can be followed as before while the directories on the way are there. -/
theorem walk_mono {t t' : Tree} {names : List String} :
    ∀ {here place : Place}, t.walk here names = .ok place →
      (∀ ns n rest, names = ns ++ n :: rest → t.node? (Place.follow here ns) = some .directory →
        t'.node? (Place.follow here ns) = some .directory) →
      t'.walk here names = .ok place := by
  induction names with
  | nil => exact fun h _ => h
  | cons n rest ih =>
    intro here place h hdirs
    rw [walk] at h ⊢
    split at h
    · cases h
    · cases h
    · rename_i hd
      rw [show t'.node? here = some .directory from hdirs [] n rest rfl hd]
      have hrest := fun ns m more he => hdirs (n :: ns) m more (congrArg (n :: ·) he)
      dsimp only
      by_cases hn : n = ".."
      · simp only [Place.follow, hn, if_true] at h hrest ⊢
        exact ih h hrest
      · simp only [Place.follow, hn, if_false] at h hrest ⊢
        by_cases hlong : maxName < Text.Utf8.size n
        · simp only [hlong, if_true] at h
          cases h
        · simp only [hlong, if_false] at h ⊢
          exact ih h hrest

/-- A path leads where it led as long as the directories on its way stay. -/
theorem locate_mono {t t' : Tree} {p : Path} {place : Place} (h : t.locate p = .ok place)
    (hdirs : ∀ ns n rest, p.names = ns ++ n :: rest →
      t.node? (Path.place { p with names := ns }) = some .directory →
      t'.node? (Path.place { p with names := ns }) = some .directory) : t'.locate p = .ok place := by
  rw [locate] at h ⊢
  split at h
  · cases h
  · rename_i hlong
    rw [if_neg hlong]
    exact walk_mono h hdirs

/-- A tree in good order: no place twice, only places that paths can lead to, and each below a directory. -/
structure Sound (t : Tree) : Prop where
  keys : (Keyed.keys t.nodes).Nodup
  reachable : ∀ e ∈ t.nodes, Place.Reachable e.1 ∧ ¬ IsRoot e.1
  parents : ∀ e ∈ t.nodes, t.node? e.1.dropLast = some .directory

theorem Sound.node?_eq_some_iff {t : Tree} (h : t.Sound) {place : Place} {n : Node} (hr : ¬ IsRoot place) :
    t.node? place = some n ↔ (place, n) ∈ t.nodes := by
  rw [t.node?_of_not_root hr, Keyed.get?_eq_some_iff h.keys]

/-- Whatever stands at a place, a directory is above it. -/
theorem Sound.parent {t : Tree} (h : t.Sound) {place : Place} {n : Node} (hn : t.node? place = some n) :
    t.node? place.dropLast = some .directory := by
  by_cases hr : IsRoot place
  · refine t.node?_root (.inl ?_)
    rcases hr with rfl | rfl <;> rfl
  · exact h.parents _ ((h.node?_eq_some_iff hr).1 hn)

/-- A path that leads to a place leads through the directory above it. -/
theorem Sound.walk_parent {t : Tree} (h : t.Sound) {names : List String} :
    ∀ {here place : Place}, t.walk here names = .ok place →
      (names = [] → t.node? here.dropLast = some .directory) → t.node? place.dropLast = some .directory := by
  induction names with
  | nil =>
    intro here place hw hh
    cases hw
    exact hh rfl
  | cons n rest ih =>
    intro here place hw _
    rw [walk] at hw
    split at hw
    · cases hw
    · cases hw
    · rename_i hdir
      split at hw
      · exact ih hw fun _ => h.parent (h.parent hdir)
      · split at hw
        · cases hw
        · exact ih hw fun _ => by rwa [List.dropLast_concat]

/-- Whatever a path leads to lies in a directory. -/
theorem Sound.locate_parent {t : Tree} (h : t.Sound) {p : Path} {place : Place} (hl : t.locate p = .ok place) :
    t.node? place.dropLast = some .directory := by
  rw [locate] at hl
  split at hl
  · cases hl
  · refine h.walk_parent hl fun _ => t.node?_root (.inl ?_)
    split <;> rfl

/-! Single changes. -/

def put (t : Tree) (place : Place) (n : Node) : Tree := { t with nodes := Keyed.put place n t.nodes }

theorem node?_put {t : Tree} {place : Place} (hr : ¬ IsRoot place) (n : Node) (other : Place) :
    (t.put place n).node? other = if other = place then some n else t.node? other := by
  by_cases ho : other = place
  · subst ho
    rw [if_pos rfl, node?_of_not_root _ hr]
    exact Keyed.get?_put_self other n t.nodes
  · rw [if_neg ho]
    by_cases hor : IsRoot other
    · rw [node?_root _ hor, node?_root _ hor]
    · rw [node?_of_not_root _ hor, node?_of_not_root _ hor]
      exact Keyed.get?_put_of_ne n t.nodes (Ne.symm ho)

theorem node?_without {t : Tree} {place : Place} (hr : ¬ IsRoot place) (other : Place) :
    (t.without place).node? other = if other = place then none else t.node? other := by
  by_cases ho : other = place
  · subst ho
    rw [if_pos rfl, node?_of_not_root _ hr]
    exact Keyed.get?_erase_self other t.nodes
  · rw [if_neg ho]
    by_cases hor : IsRoot other
    · rw [node?_root _ hor, node?_root _ hor]
    · rw [node?_of_not_root _ hor, node?_of_not_root _ hor]
      exact Keyed.get?_erase_of_ne t.nodes (Ne.symm ho)

theorem not_root_dropLast_ne {place : Place} (hr : ¬ IsRoot place) : place.dropLast ≠ place := by
  intro he
  have := congrArg List.length he
  rw [List.length_dropLast] at this
  have hpos : 0 < place.length := List.length_pos_iff.2 fun h => hr (.inl h)
  omega

theorem Sound.put {t : Tree} (h : t.Sound) {place : Place} {n : Node} (hp : Place.Reachable place)
    (hr : ¬ IsRoot place)
    (hparent : t.node? place.dropLast = some .directory) (hn : n = .directory ∨ t.node? place ≠ some .directory) :
    (t.put place n).Sound where
  keys := Keyed.nodup_keys_put h.keys
  reachable e he := by
    rcases (Keyed.mem_put_iff h.keys).1 he with rfl | ⟨he, -⟩
    · exact ⟨hp, hr⟩
    · exact h.reachable e he
  parents e he := by
    rw [node?_put hr]
    rcases (Keyed.mem_put_iff h.keys).1 he with rfl | ⟨he, -⟩
    · rw [if_neg (not_root_dropLast_ne hr)]
      exact hparent
    · have hold := h.parents e he
      split
      · rename_i hd
        rw [hn.resolve_right fun hne => hne (hd ▸ hold)]
      · exact hold

theorem Sound.without {t : Tree} (h : t.Sound) {place : Place} (hr : ¬ IsRoot place)
    (hbare : ∀ e ∈ t.nodes, e.1.dropLast ≠ place) : (t.without place).Sound where
  keys := Keyed.nodup_keys_erase h.keys
  reachable e he := h.reachable e (List.mem_of_mem_filter he)
  parents e he := by
    have he' := List.mem_of_mem_filter he
    rw [node?_without hr, if_neg (hbare e he')]
    exact h.parents e he'

/-- Nothing is below a file. -/
theorem Sound.bare_file {t : Tree} (h : t.Sound) {place : Place} {c : Content}
    (hc : t.node? place = some (.file c)) : ∀ e ∈ t.nodes, e.1.dropLast ≠ place := by
  intro e he hd
  have := h.parents e he
  rw [hd, hc] at this
  cases this

/-- Nothing is below a place where no directory stands. -/
theorem Sound.eq_of_prefix {t : Tree} (h : t.Sound) {place : Place} (hn : t.node? place ≠ some .directory)
    {e : Place × Node} (he : e ∈ t.nodes) (hp : place <+: e.1) : e.1 = place := by
  obtain ⟨rest, hrest⟩ := hp
  induction rest using List.reverseRecOn generalizing e with
  | nil => rw [← hrest, List.append_nil]
  | append_singleton rest n ih =>
    have hd : e.1.dropLast = place ++ rest := by
      rw [← hrest, ← List.append_assoc, List.dropLast_concat]
    have hparent := h.parents e he
    have hnr : ¬ IsRoot (place ++ rest) := by
      have hnr' : ¬ IsRoot place := not_root_of_node? hn
      rintro (hr | hr)
      · exact hnr' (.inl (List.append_eq_nil_iff.1 hr).1)
      · rcases List.append_eq_singleton_iff.1 hr with ⟨hr, -⟩ | ⟨hr, -⟩
        · exact hnr' (.inl hr)
        · exact hnr' (.inr hr)
    rw [hd] at hparent
    have hmem := (h.node?_eq_some_iff hnr).1 hparent
    have hplace : place ++ rest = place := ih hmem rfl
    rw [hplace] at hparent
    exact absurd hparent hn

/-- Nothing lies below a file. -/
theorem Sound.eq_of_prefix_file {t : Tree} (h : t.Sound) {place : Place} {c : Content}
    (hc : t.node? place = some (.file c)) {e : Place × Node} (he : e ∈ t.nodes) (hp : place <+: e.1) : e.1 = place :=
  h.eq_of_prefix (by rw [hc]; exact nofun) he hp

/-! Making directories. -/

/-- A tree in good order with more directories and nothing else changed. -/
structure Grown (t t' : Tree) : Prop where
  sound : t'.Sound
  kept : ∀ place n, t.node? place = some n → t'.node? place = some n
  files : ∀ place c, t'.node? place = some (.file c) → t.node? place = some (.file c)

theorem Grown.refl {t : Tree} (h : t.Sound) : t.Grown t := ⟨h, fun _ _ h => h, fun _ _ h => h⟩

theorem Grown.trans {t t' t'' : Tree} (h : t.Grown t') (h' : t'.Grown t'') : t.Grown t'' where
  sound := h'.sound
  kept place n hn := h'.kept place n (h.kept place n hn)
  files place c hc := h.files place c (h'.files place c hc)

/-- A directory is made where nothing stands. -/
theorem makeOne_inv {t t' : Tree} {p : Path} (h : t.makeOne p = .ok t') :
    t.locate p = .ok p.place ∧ t.node? p.place = none ∧ t' = t.put p.place .directory := by
  obtain ⟨place, hl, h⟩ := bind_eq_ok.1 h
  obtain rfl := locate_eq_place hl
  split at h
  · cases h
  next hn =>
    cases h
    exact ⟨hl, hn, rfl⟩

theorem makeOne_grown {t t' : Tree} (hs : t.Sound) {p : Path} (hp : p.Usable) (h : t.makeOne p = .ok t') :
    t.Grown t' := by
  obtain ⟨hl, hn, rfl⟩ := makeOne_inv h
  have hr : ¬ IsRoot p.place := not_root_of_node? (by rw [hn]; exact nofun)
  have hnode := fun other => node?_put (t := t) hr .directory other
  refine ⟨hs.put hp.reachable hr (hs.locate_parent hl) (.inl rfl), ?_, ?_⟩
  · intro other n ho
    refine (hnode other).trans ?_
    rw [if_neg fun he => by rw [he, hn] at ho; cases ho]
    exact ho
  · intro other c ho
    have ho := (hnode other).symm.trans ho
    split at ho
    · cases ho
    · exact ho

theorem ensureOne_grown {t t' : Tree} (hs : t.Sound) {p : Path} (hp : p.Usable) (h : t.ensureOne p = .ok t') :
    t.Grown t' := by
  rw [ensureOne] at h
  cases hm : t.makeOne p with
  | ok t'' =>
    rw [hm] at h
    cases h
    exact makeOne_grown hs hp hm
  | error d =>
    rw [hm] at h
    dsimp only at h
    split at h
    · cases h
      exact Grown.refl hs
    · cases h

end Tree

theorem Path.Normal.parent {p : Path} (h : p.Normal) : p.parent.Normal where
  slashes := h.slashes
  names n hn := h.names n (List.dropLast_subset _ hn)

theorem Path.hasNul_of_parent {p : Path} (h : p.parent.hasNul = true) : p.hasNul = true := by
  simp only [Path.hasNul, Path.parent, List.any_eq_true] at h ⊢
  obtain ⟨n, hn, hc⟩ := h
  exact ⟨n, List.dropLast_subset _ hn, hc⟩

theorem Path.Usable.parent {p : Path} (h : p.Usable) : p.parent.Usable where
  toNormal := h.toNormal.parent
  notNul := Bool.eq_false_iff.2 fun hn => Bool.eq_false_iff.1 h.notNul (hasNul_of_parent hn)

namespace Tree

theorem failing_ok {α : Type} {paths : List Path} {r : Except FileDefect α} {a : α} (h : failing paths r = .ok a) :
    r = .ok a := by
  cases r with
  | ok b =>
    cases h
    rfl
  | error d => cases h

theorem failing_fault {α : Type} {paths : List Path} {r : Except FileDefect α} {e : Fault}
    (h : failing paths r = .error e) : ∃ d ps, e = .file d ps := by
  cases r with
  | ok a => cases h
  | error d =>
    cases h
    exact ⟨d, _, rfl⟩

theorem ensure_grown {t : Tree} (hs : t.Sound) (p : Path) (hp : p.Usable) :
    ∀ {t' : Tree}, t.ensure p = .ok t' → t.Grown t' := by
  fun_induction ensure t p with
  | case1 p t₁ hone =>
    intro t' h
    cases h
    exact ensureOne_grown hs hp hone
  | case2 => exact nofun
  | case3 p hne t₁ hparent hone ih =>
    intro t' h
    have hg := ih hp.parent hparent
    exact hg.trans (ensureOne_grown hg.sound hp (failing_ok h))
  | case4 => exact nofun
  | case5 => exact nofun

/-- Making directories adds directories and changes nothing else. -/
theorem makeDirectories_grown {t t' : Tree} (hs : t.Sound) {p : Path} (hp : p.Normal)
    (h : t.makeDirectories p = .ok t') : t.Grown t' ∧ p.Usable := by
  rw [makeDirectories] at h
  split at h
  · cases h
  · rename_i hn
    have hu : p.Usable := ⟨hp, by simpa using hn⟩
    exact ⟨ensure_grown hs p hu h, hu⟩

theorem ensure_fault (t : Tree) (p : Path) : ∀ {e : Fault}, t.ensure p = .error e → ∃ d ps, e = .file d ps := by
  fun_induction ensure t p with
  | case1 => exact nofun
  | case2 => exact failing_fault
  | case3 => exact failing_fault
  | case4 p hne f hparent hone ih =>
    rintro e ⟨⟩
    exact ih hparent
  | case5 => exact failing_fault

/-- Directories are not made if the path cannot be any file's, or if the file system reports something. -/
theorem makeDirectories_fault {t : Tree} {p : Path} {e : Fault} (h : t.makeDirectories p = .error e) :
    (e = .nulInPath ∧ p.hasNul = true) ∨ ∃ d ps, e = .file d ps := by
  rw [makeDirectories] at h
  split at h
  case isTrue hn =>
    cases h
    exact .inl ⟨rfl, hn⟩
  case isFalse => exact .inr (ensure_fault t p h)

theorem onPath_ok {α : Type} {p : Path} {work : Except FileDefect α} {a : α} (h : onPath p work = .ok a) :
    p.hasNul = false ∧ work = .ok a := by
  rw [onPath] at h
  split at h
  · cases h
  · rename_i hn
    exact ⟨by simpa using hn, failing_ok h⟩

/-! Writing, removing and moving files. -/

/-- A tree in good order in which one place holds a new file, where no directory was. -/
structure Written (t : Tree) (place : Place) (c : Content) (t' : Tree) : Prop where
  sound : t'.Sound
  notDirectory : t.node? place ≠ some .directory
  node : ∀ other, t'.node? other = if other = place then some (.file c) else t.node? other

/-- A writing that goes through has followed its path to where no directory stands. -/
theorem write_inv {t t' : Tree} {p : Path} {s : String} (h : t.write p s = .ok t') :
    p.hasNul = false ∧ t.locate p = .ok p.place ∧ t.node? p.place ≠ some .directory ∧
      t' = t.put p.place (.file (.text s)) := by
  obtain ⟨hnul, h⟩ := onPath_ok h
  obtain ⟨place, hl, h⟩ := bind_eq_ok.1 h
  obtain rfl := locate_eq_place hl
  split at h
  · cases h
  next hd =>
    cases h
    exact ⟨hnul, hl, hd, rfl⟩

/-- Where a write goes through, the file holds the text and everything else is as it was. -/
theorem write_ok {t t' : Tree} (hs : t.Sound) {p : Path} (hp : p.Normal) {s : String} (h : t.write p s = .ok t') :
    Written t p.place (.text s) t' := by
  obtain ⟨hnul, hl, hd, rfl⟩ := write_inv h
  have hu : p.Usable := ⟨hp, hnul⟩
  exact ⟨hs.put hu.reachable (not_root_of_node? hd) (hs.locate_parent hl) (.inr hd), hd,
    node?_put (not_root_of_node? hd) _⟩

/-- Writing goes through where the path can be followed and no directory stands. -/
theorem write_total {t : Tree} {p : Path} (hn : p.hasNul = false) (hl : t.locate p = .ok p.place)
    (hd : t.node? p.place ≠ some .directory) (s : String) : ∃ t', t.write p s = .ok t' := by
  refine ⟨t.put p.place (.file (.text s)), ?_⟩
  simp only [write, onPath, hn, Bool.false_eq_true, if_false, store, hl, bind, Except.bind, pure, Except.pure, put]
  rfl

/-- A tree in good order in which one place has become free. -/
structure Freed (t : Tree) (place : Place) (t' : Tree) : Prop where
  sound : t'.Sound
  node : ∀ other, t'.node? other = if other = place then none else t.node? other

theorem Sound.freed {t : Tree} (h : t.Sound) {place : Place} (hr : ¬ IsRoot place)
    (hbare : ∀ e ∈ t.nodes, e.1.dropLast ≠ place) : Freed t place (t.without place) :=
  ⟨h.without hr hbare, node?_without hr⟩

/-- Only a file is deleted, and nothing else with it. -/
theorem deleteAt_ok {t t' : Tree} (hs : t.Sound) {p : Path} (h : t.deleteAt p = .ok t') :
    Freed t p.place t' ∧ ∃ c, t.node? p.place = some (.file c) := by
  obtain ⟨place, hl, h⟩ := bind_eq_ok.1 h
  obtain rfl := locate_eq_place hl
  split at h
  · cases h
  · cases h
  next c hn =>
    cases h
    exact ⟨hs.freed (not_root_of_node? (by rw [hn]; exact nofun)) (hs.bare_file hn), c, hn⟩

/-- Deleting a file unless it is not there either frees its place or changes nothing. -/
theorem deleteIfThere_ok {t t' : Tree} (hs : t.Sound) {p : Path} (h : t.deleteIfThere p = .ok t') :
    t' = t ∨ Freed t p.place t' := by
  rw [deleteIfThere] at h
  split at h
  · split at h
    · cases h
    · cases h
      exact .inl rfl
  · exact .inr (deleteAt_ok hs (onPath_ok h).2).1

/-- Nothing stands below an empty place. -/
theorem not_prefix_of_isEmptyAt {t : Tree} {place : Place} (he : t.isEmptyAt place = true) (hr : ¬ IsRoot place)
    {e : Place × Node} (hm : e ∈ t.nodes) (hne : e.1 ≠ place) : ¬ place <+: e.1 := by
  intro hp
  have hbelow : e ∈ t.below place := by
    have hnil : place ≠ [] := fun h => hr (.inl h)
    exact List.mem_filter.2 ⟨hm, by simp [hne, hnil, List.isPrefixOf_iff_prefix.2 hp]⟩
  rw [isEmptyAt, List.isEmpty_iff] at he
  rw [he] at hbelow
  cases hbelow

/-- A directory is removed where it stands and nothing stands below it. -/
theorem removeDirectory_inv {t t' : Tree} {p : Path} (h : t.removeDirectory p = .ok t') :
    t.node? p.place = some .directory ∧ t.isEmptyAt p.place = true ∧ t' = t.without p.place := by
  obtain ⟨-, h⟩ := onPath_ok h
  obtain ⟨place, hl, h⟩ := bind_eq_ok.1 h
  obtain rfl := locate_eq_place hl
  split at h
  · cases h
  · cases h
  next hn =>
    split at h
    next he =>
      cases h
      exact ⟨hn, he, rfl⟩
    · cases h

/-- Only an empty directory is removed. -/
theorem removeDirectory_ok {t t' : Tree} (hs : t.Sound) {p : Path} (hr : ¬ IsRoot p.place)
    (h : t.removeDirectory p = .ok t') :
    Freed t p.place t' ∧ t.node? p.place = some .directory ∧ t.isEmptyAt p.place = true := by
  obtain ⟨hn, he, rfl⟩ := removeDirectory_inv h
  refine ⟨hs.freed hr fun e hm hd => ?_, hn, he⟩
  have hne : e.1 ≠ p.place := fun h => not_root_dropLast_ne hr (h ▸ hd)
  exact not_prefix_of_isEmptyAt he hr hm hne (hd ▸ List.dropLast_prefix e.1)

theorem hasEmptyDirectory_iff {t : Tree} {p : Path} :
    t.hasEmptyDirectory p = true ↔
      t.locate p = .ok p.place ∧ t.node? p.place = some .directory ∧ t.isEmptyAt p.place = true := by
  rw [hasEmptyDirectory]
  cases hl : t.locate p with
  | error d => simp
  | ok place =>
    obtain rfl := locate_eq_place hl
    cases hn : t.node? p.place with
    | none => simp [hn]
    | some n => cases n <;> simp [hn]

/-- Removing a directory that is there and empty goes through. -/
theorem removeDirectory_total {t : Tree} {p : Path} (hn : p.hasNul = false) (h : t.hasEmptyDirectory p = true) :
    ∃ t', t.removeDirectory p = .ok t' := by
  obtain ⟨hl, hd, he⟩ := hasEmptyDirectory_iff.1 h
  refine ⟨t.without p.place, ?_⟩
  simp only [removeDirectory, onPath, hn, Bool.false_eq_true, if_false, removeDirectoryAt, hl, hd, he, if_true, bind,
    Except.bind, pure, Except.pure, failing]

/-- A tree in good order in which a file has moved to another place, where no directory was. -/
structure Moved (t : Tree) (old new : Place) (c : Content) (t' : Tree) : Prop where
  sound : t'.Sound
  notDirectory : t.node? new ≠ some .directory
  node : ∀ other, t'.node? other =
    if other = new then some (.file c) else if other = old then none else t.node? other

/-- A file takes nothing with it when it is moved. -/
theorem relocate_nodes {t : Tree} (hs : t.Sound) {old new : Place} {c : Content}
    (hc : t.node? old = some (.file c)) :
    (t.relocate old new).nodes = (Keyed.erase new t.nodes).map fun e => if e.1 = old then (new, e.2) else e := by
  simp only [relocate, without]
  refine List.map_congr_left fun e he => ?_
  have hm := List.mem_of_mem_filter he
  by_cases ho : e.1 = old
  · simp [ho]
  · have hp : ¬ old <+: e.1 := fun hp => ho (hs.eq_of_prefix_file hc hm hp)
    simp [ho, List.isPrefixOf_iff_prefix, hp]

theorem mem_relocate {t : Tree} (hs : t.Sound) {old new : Place} {c : Content} (hc : t.node? old = some (.file c))
    (hne : old ≠ new) (e : Place × Node) :
    e ∈ (t.relocate old new).nodes ↔ e = (new, .file c) ∨ e ∈ t.nodes ∧ e.1 ≠ old ∧ e.1 ≠ new := by
  have hold : (old, Node.file c) ∈ t.nodes :=
    (hs.node?_eq_some_iff (not_root_of_node? (by rw [hc]; exact nofun))).1 hc
  rw [relocate_nodes hs hc, List.mem_map]
  constructor
  · rintro ⟨d, hd, rfl⟩
    obtain ⟨hd, hdn⟩ := List.mem_filter.1 hd
    by_cases ho : d.1 = old
    · rw [if_pos ho]
      have hn := (hs.node?_eq_some_iff (hs.reachable d hd).2).2 hd
      rw [ho, hc] at hn
      exact .inl (by rw [← Option.some.inj hn])
    · rw [if_neg ho]
      exact .inr ⟨hd, ho, by simpa using hdn⟩
  · rintro (rfl | ⟨he, ho, hn⟩)
    · exact ⟨(old, .file c), List.mem_filter.2 ⟨hold, by simpa using hne⟩, by simp⟩
    · exact ⟨e, List.mem_filter.2 ⟨he, by simpa using hn⟩, by simp [ho]⟩

theorem keys_relocate {t : Tree} (hs : t.Sound) {old new : Place} {c : Content}
    (hc : t.node? old = some (.file c)) : (Keyed.keys (t.relocate old new).nodes).Nodup := by
  have hkeys : Keyed.keys (t.relocate old new).nodes =
      (Keyed.keys (Keyed.erase new t.nodes)).map fun place => if place = old then new else place := by
    rw [relocate_nodes hs hc, Keyed.keys, Keyed.keys, List.map_map, List.map_map]
    refine List.map_congr_left fun e _ => ?_
    by_cases ho : e.1 = old <;> simp [ho]
  have hfree : ∀ place ∈ Keyed.keys (Keyed.erase new t.nodes), place ≠ new := by
    intro place hp
    obtain ⟨e, he, rfl⟩ := List.mem_map.1 hp
    simpa using (List.mem_filter.1 he).2
  rw [hkeys]
  refine (Keyed.nodup_keys_erase hs.keys).map_on fun x hx y hy h => ?_
  by_cases hxo : x = old <;> by_cases hyo : y = old
  · rw [hxo, hyo]
  · rw [if_pos hxo, if_neg hyo] at h
    exact absurd h.symm (hfree y hy)
  · rw [if_neg hxo, if_pos hyo] at h
    exact absurd h (hfree x hx)
  · rwa [if_neg hxo, if_neg hyo] at h

theorem relocate_moved {t : Tree} (hs : t.Sound) {old new : Place} {c : Content} (hc : t.node? old = some (.file c))
    (hne : old ≠ new) (hnew : Place.Reachable new) (hn : t.node? new ≠ some .directory)
    (hparent : t.node? new.dropLast = some .directory) : Moved t old new c (t.relocate old new) := by
  have hrn := not_root_of_node? hn
  have hro : ¬ IsRoot old := not_root_of_node? (by rw [hc]; exact nofun)
  have hmem := mem_relocate hs hc hne
  have hkeys : (Keyed.keys (t.relocate old new).nodes).Nodup := keys_relocate hs hc
  have hnode : ∀ other, (t.relocate old new).node? other =
      if other = new then some (.file c) else if other = old then none else t.node? other := by
    intro other
    by_cases hr : IsRoot other
    · rw [node?_root _ hr, node?_root _ hr, if_neg fun h : other = new => hrn (h ▸ hr),
        if_neg fun h : other = old => hro (h ▸ hr)]
    · rw [node?_of_not_root _ hr, node?_of_not_root _ hr]
      refine Option.ext fun n => ?_
      rw [Keyed.get?_eq_some_iff hkeys, hmem]
      by_cases h1 : other = new
      · simp [h1, eq_comm]
      · by_cases h2 : other = old
        · simp [h2, hne]
        · simp [h1, h2, Keyed.get?_eq_some_iff hs.keys]
  refine ⟨⟨hkeys, fun e he => ?_, fun e he => ?_⟩, hn, hnode⟩
  · rcases (hmem e).1 he with rfl | ⟨he, -, -⟩
    · exact ⟨hnew, hrn⟩
    · exact hs.reachable e he
  · have hdir : ∀ place, t.node? place = some .directory → (t.relocate old new).node? place = some .directory := by
      intro place hp
      rw [hnode, if_neg fun h : place = new => hn (h ▸ hp),
        if_neg fun h : place = old => by rw [h, hc] at hp; cases hp]
      exact hp
    rcases (hmem e).1 he with rfl | ⟨he, -, -⟩
    · exact hdir _ hparent
    · exact hdir _ (hs.parents e he)

/-- A move that goes through has followed both paths. -/
theorem rename_inv {t t' : Tree} {old new : Path} (h : t.rename old new = .ok t') :
    new.hasNul = false ∧ t.locate old = .ok old.place ∧ t.locate new = .ok new.place ∧
      t.renameAt old new = .ok t' := by
  rw [rename] at h
  split at h
  · cases h
  · rename_i hnul
    rw [Bool.or_eq_true, not_or] at hnul
    have hat := failing_ok h
    obtain ⟨source, hlo, hrest⟩ := bind_eq_ok.1 hat
    obtain ⟨target, hln, -⟩ := bind_eq_ok.1 hrest
    obtain rfl := locate_eq_place hlo
    obtain rfl := locate_eq_place hln
    exact ⟨by simpa using hnul.2, hlo, hln, hat⟩

/-- Renaming moves a file, in the place of another file perhaps, but never of a directory. -/
theorem rename_ok {t t' : Tree} (hs : t.Sound) {old new : Path} (hnew : new.Normal) {c : Content}
    (hc : t.node? old.place = some (.file c)) (hne : old.place ≠ new.place) (h : t.rename old new = .ok t') :
    Moved t old.place new.place c t' := by
  obtain ⟨hnul, hlo, hln, h⟩ := rename_inv h
  have hu : new.Usable := ⟨hnew, hnul⟩
  simp only [renameAt, hlo, hln, hc, hne, bind, Except.bind, if_false] at h
  split at h
  · cases h
  · split at h
    · cases h
    · have hd : t.node? new.place ≠ some .directory := by
        intro hd
        simp [hd, throw, throwThe, MonadExceptOf.throw] at h
      have ht : t' = t.relocate old.place new.place := by
        cases hn : t.node? new.place with
        | none => simpa [hn, pure, Except.pure, eq_comm] using h
        | some n =>
          cases n with
          | directory => exact absurd hn hd
          | file c' => simpa [hn, pure, Except.pure, eq_comm] using h
      rw [ht]
      exact relocate_moved hs hc hne hu.reachable hd (hs.locate_parent hln)

/-! Files below a place. -/

/-- What is found below a place are files. -/
theorem mem_documentsBelow {t : Tree} {place : Place} {names : List String} (h : names ∈ t.documentsBelow place) :
    ∃ e ∈ t.below place, names = e.1.drop place.length ∧ ∃ c, e.2 = .file c := by
  rw [documentsBelow, List.mem_mergeSort] at h
  obtain ⟨e, he, rfl⟩ := List.mem_map.1 h
  obtain ⟨he, hfile⟩ := List.mem_filter.1 he
  refine ⟨e, he, rfl, ?_⟩
  cases hn : e.2 with
  | directory => simp [hn, isDirectory] at hfile
  | file c => exact ⟨c, rfl⟩

theorem mem_below {t : Tree} {place : Place} {e : Place × Node} (h : e ∈ t.below place) :
    e ∈ t.nodes ∧ e.1 = place ++ e.1.drop place.length ∧ (place = [] → e.1.head? ≠ some "/") := by
  obtain ⟨hm, h⟩ := List.mem_filter.1 h
  simp only [Bool.and_eq_true, Bool.or_eq_true, bne_iff_ne, ne_eq, List.isPrefixOf_iff_prefix] at h
  obtain ⟨⟨-, hp⟩, hr⟩ := h
  exact ⟨hm, (List.prefix_iff_eq_append.1 hp).symm, fun h => hr.resolve_left fun hn => hn h⟩

theorem ne_nil_of_mem_documentsBelow {t : Tree} {place : Place} {names : List String}
    (h : names ∈ t.documentsBelow place) : names ≠ [] := by
  obtain ⟨e, he, rfl, -⟩ := mem_documentsBelow h
  have hp := (mem_below he).2.1
  have hne : e.1 ≠ place := by
    simpa using (Bool.and_eq_true_iff.1 (Bool.and_eq_true_iff.1 (List.mem_filter.1 he).2).1).1
  exact fun hn => hne (by rwa [hn, List.append_nil] at hp)

/-- A tree whose places can all be reached by a path. -/
def Proper (t : Tree) : Prop := ∀ e ∈ t.nodes, Place.Reachable e.1

theorem Sound.proper {t : Tree} (h : t.Sound) : t.Proper := fun e he => (h.reachable e he).1

theorem Proper.documentsBelow {t : Tree} (h : t.Proper) {place : Place} {names : List String}
    (hnames : names ∈ t.documentsBelow place) : ∀ n ∈ names, ProperName n := by
  intro n hn
  obtain ⟨e, he, rfl, -⟩ := mem_documentsBelow hnames
  obtain ⟨hm, hp, htop⟩ := mem_below he
  obtain ⟨rest, hrest, hproper⟩ := h e hm
  rcases hrest with hrest | hrest
  · exact hproper n (hrest ▸ List.mem_of_mem_drop hn)
  · cases place with
    | nil => exact absurd (by rw [hrest]; rfl) (htop rfl)
    | cons m place =>
      rw [hrest, List.length_cons, List.drop_succ_cons] at hn
      exact hproper n (List.mem_of_mem_drop hn)

/-- The files below a place are found once each, under names that nodes can have. -/
theorem Sound.documentsBelow {t : Tree} (hs : t.Sound) (place : Place) :
    (t.documentsBelow place).Nodup ∧ ∀ names ∈ t.documentsBelow place, ∀ n ∈ names, ProperName n := by
  refine ⟨?_, fun names hnames => hs.proper.documentsBelow hnames⟩
  rw [Tree.documentsBelow, (List.mergeSort_perm _ _).nodup_iff]
  refine List.Nodup.map_on (fun d hd e he h => ?_) ?_
  · obtain ⟨hdm, hd', -⟩ := mem_below (List.mem_of_mem_filter hd)
    obtain ⟨hem, he', -⟩ := mem_below (List.mem_of_mem_filter he)
    exact List.inj_on_of_nodup_map hs.keys hdm hem (by rw [hd', he', h])
  · exact ((List.Nodup.of_map _ hs.keys).filter _).filter _

/-! Reading. -/

/-- A file at a place can be read, and this is its text. -/
def Says (t : Tree) (place : Place) (s : String) : Prop :=
  ∃ c raw, t.node? place = some (.file c) ∧ contentText c = .ok raw ∧
    s = String.ofList (Text.unifyLineEnds raw.toList)

theorem find_eq_ok {t : Tree} {p : Path} {n : Node} :
    t.find p = .ok n ↔ t.locate p = .ok p.place ∧ t.node? p.place = some n := by
  rw [find, bind_eq_ok]
  constructor
  · rintro ⟨place, hl, h⟩
    obtain rfl := locate_eq_place hl
    split at h
    next hn =>
      cases h
      exact ⟨hl, hn⟩
    · cases h
  · rintro ⟨hl, hn⟩
    exact ⟨p.place, hl, by rw [hn]; rfl⟩

theorem look_eq_some {t : Tree} {p : Path} {n : Node} (h : t.look p = .ok (some n)) :
    p.hasNul = false ∧ t.find p = .ok n := by
  rw [look] at h
  split at h
  · cases h
  next hnul =>
    split at h <;> cases h
    exact ⟨by simpa using hnul, by assumption⟩
theorem contentOf_eq_ok {t : Tree} {p : Path} {c : Content} :
    t.contentOf p = .ok c ↔ t.locate p = .ok p.place ∧ t.node? p.place = some (.file c) := by
  rw [contentOf, bind_eq_ok]
  constructor
  · rintro ⟨n, hn, h⟩
    split at h <;> cases h
    exact find_eq_ok.1 hn
  · exact fun h => ⟨_, find_eq_ok.2 h, rfl⟩

theorem read_says {t : Tree} {p : Path} {s : String} (h : t.read p = .ok s) : t.Says p.place s := by
  obtain ⟨raw, hraw, rfl⟩ : ∃ raw, t.readRaw p = .ok raw ∧
    String.ofList (Text.unifyLineEnds raw.toList) = s := by
    rw [read] at h
    cases hraw : t.readRaw p with
    | error e => simp [hraw, Except.map] at h
    | ok raw => exact ⟨raw, rfl, by simpa [hraw, Except.map] using h⟩
  obtain ⟨c, hc, hraw⟩ := bind_eq_ok.1 hraw
  exact ⟨c, raw, (contentOf_eq_ok.1 (onPath_ok hc).2).2, hraw, rfl⟩

end Tree

end Compendium
