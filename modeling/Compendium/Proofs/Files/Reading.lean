import Mathlib.Data.List.Lex
import Mathlib.Data.String.Basic
import Compendium.Proofs.Files.Tree

/-!
What is read where something was written. The way to a file is still open after the file was written, and so is the
way to every directory on it; the text that comes back is the one that was written, with its line ends made alike.
-/
namespace Compendium

def Text.unified (s : String) : String := String.ofList (Text.unifyLineEnds s.toList)

/-- Reading changes a text exactly if it has a carriage return. -/
theorem Text.unified_eq_self_iff {s : String} : Text.unified s = s ↔ '\r' ∉ s.toList := by
  rw [Text.unified, ← String.toList_inj, String.toList_ofList, Text.unifyLineEnds_eq_self_iff]

/-! Ways that lead further. -/

theorem intercalate_append {α : Type} (mark : List α) (xs ys : List (List α)) :
    ∃ r, mark.intercalate (xs ++ ys) = mark.intercalate xs ++ r := by
  induction xs with
  | nil => exact ⟨_, rfl⟩
  | cons x xs ih =>
    cases xs with
    | nil =>
      cases ys with
      | nil => exact ⟨[], by simp⟩
      | cons y ys => exact ⟨mark ++ mark.intercalate (y :: ys), by simp [List.intercalate_cons_cons]⟩
    | cons x' xs =>
      obtain ⟨r, hr⟩ := ih
      rw [List.cons_append] at hr
      exact ⟨r, by simp [List.intercalate_cons_cons, hr]⟩

/-- A path is not written longer than one that leads further, unless it is a single dot. -/
theorem Path.size_text_le (p : Path) (names : List String) :
    Text.Utf8.size p.text ≤ max 1 (Text.Utf8.size { p with names := p.names ++ names : Path }.text) := by
  by_cases hdot : p.names = [] ∧ p.slashes = 0
  · have : p.text = "." := by simp [text, hdot]
    rw [this]
    exact Nat.le_max_left 1 _
  · obtain ⟨r, hr⟩ := intercalate_append ['/'] (p.names.map String.toList) (names.map String.toList)
    have hfurther : ¬(p.names ++ names = [] ∧ p.slashes = 0) :=
      fun h => hdot ⟨(List.append_eq_nil_iff.1 h.1).1, h.2⟩
    refine Nat.le_trans ?_ (Nat.le_max_right 1 _)
    simp only [text]
    rw [if_neg (by simpa using hdot), if_neg (by simpa using hfurther)]
    simp [Text.Utf8.size, Text.Utf8.encode, hr]

namespace Tree

variable {t t' : Tree}

/-- On a way that can be gone, each place before the end is a directory. -/
theorem walk_append {ms : List String} {n : String} {r : List String} :
    ∀ {here place : Place}, t.walk here (ms ++ n :: r) = .ok place →
      t.walk here ms = .ok (Place.follow here ms) ∧ t.node? (Place.follow here ms) = some .directory := by
  induction ms with
  | nil =>
    intro here place h
    rw [List.nil_append, walk] at h
    split at h
    · cases h
    · cases h
    next hd => exact ⟨rfl, hd⟩
  | cons m ms ih =>
    intro here place h
    rw [List.cons_append, walk] at h
    rw [walk, Place.follow]
    split at h
    · cases h
    · cases h
    · split at h
      next hup =>
        rw [if_pos hup, if_pos hup]
        exact ih h
      next hup =>
        split at h
        · cases h
        next hlong =>
          rw [if_neg hup, if_neg hup, if_neg hlong]
          exact ih h

/-- A way that leads further leads to a directory first. -/
theorem locate_append {p : Path} {names : List String} (hne : names ≠ []) {place : Place}
    (h : t.locate { p with names := p.names ++ names } = .ok place) :
    t.locate p = .ok p.place ∧ t.node? p.place = some .directory := by
  rw [locate] at h ⊢
  split at h
  · cases h
  next hlong =>
    obtain ⟨n, r, rfl⟩ := List.exists_cons_of_ne_nil hne
    obtain ⟨hwalk, hdir⟩ := walk_append h
    have hsize := p.size_text_le (n :: r)
    rw [if_neg (by simp only [maxPath] at hlong ⊢; omega)]
    exact ⟨hwalk, hdir⟩

theorem hasDirectory_iff {p : Path} :
    t.hasDirectory p = true ↔ t.locate p = .ok p.place ∧ t.node? p.place = some .directory := by
  rw [← find_eq_ok, hasDirectory]
  split
  next hfind => simp [hfind]
  next hfind => exact iff_of_false Bool.false_ne_true hfind

theorem ensureOne_of_directory {p : Path} {place : Place} (hl : t.locate p = .ok place)
    (hd : t.node? place = some .directory) : t.ensureOne p = .ok t := by
  obtain rfl := locate_eq_place hl
  simp [ensureOne, makeOne, hl, hd, hasDirectory_iff.2 ⟨hl, hd⟩, bind, Except.bind, throw, throwThe,
    MonadExceptOf.throw]

/-- A directory on the way to something need not be made. -/
theorem makeDirectories_way {p : Path} (hn : p.hasNul = false) {names : List String} (hne : names ≠ [])
    {place : Place} (h : t.locate { p with names := p.names ++ names } = .ok place) : t.makeDirectories p = .ok t := by
  obtain ⟨hl, hd⟩ := locate_append hne h
  rw [makeDirectories, hn, if_neg Bool.false_ne_true, ensure, ensureOne_of_directory hl hd]

/-- A directory that was made is there, and so is the way to it. -/
theorem ensureOne_located {p : Path} (h : t.ensureOne p = .ok t') :
    ∃ place, t'.locate p = .ok place ∧ t'.node? place = some .directory := by
  rw [ensureOne] at h
  cases hm : t.makeOne p with
  | ok t'' =>
    rw [hm] at h
    cases h
    obtain ⟨hl, hn, rfl⟩ := makeOne_inv hm
    have hfree : t.node? p.place ≠ some .directory := by simp [hn]
    have hnode := node?_put (t := t) (not_root_of_node? hfree) .directory
    refine ⟨p.place, locate_mono hl fun ns n rest _ hdir => (hnode _).trans ?_, (hnode p.place).trans (if_pos rfl)⟩
    split
    · rfl
    · exact hdir
  | error d =>
    rw [hm] at h
    dsimp only at h
    split at h
    next hthere =>
      cases h
      exact ⟨p.place, hasDirectory_iff.1 (Bool.and_eq_true_iff.1 hthere).2⟩
    · cases h

theorem ensure_located (t : Tree) (p : Path) :
    ∀ {t' : Tree}, t.ensure p = .ok t' → ∃ place, t'.locate p = .ok place ∧
      t'.node? place = some .directory := by
  fun_induction ensure t p with
  | case1 p t₁ hone =>
    intro t' h
    cases h
    exact ensureOne_located hone
  | case3 p hne t₁ hparent hone ih =>
    intro t' h
    exact ensureOne_located (failing_ok h)
  | case2 | case4 | case5 =>
    intro t' h
    cases h

/-- A directory that was made stands where its path leads. -/
theorem makeDirectories_located {p : Path} (h : t.makeDirectories p = .ok t') :
    t'.locate p = .ok p.place ∧ t'.node? p.place = some .directory := by
  rw [makeDirectories] at h
  split at h
  · cases h
  · obtain ⟨place, hl, hd⟩ := ensure_located t p h
    obtain rfl := locate_eq_place hl
    exact ⟨hl, hd⟩

/-- Directories that were made need not be made again. -/
theorem makeDirectories_again {p : Path} (h : t.makeDirectories p = .ok t') : t'.makeDirectories p = .ok t' := by
  obtain ⟨hl, hd⟩ := makeDirectories_located h
  rw [makeDirectories] at h ⊢
  split at h
  · cases h
  next hn => rw [if_neg hn, ensure, ensureOne_of_directory hl hd]

/-! Files that were written. -/

/-- The way to a file that was written is open, and the file is there. -/
theorem write_located {p : Path} {s : String} (h : t.write p s = .ok t') :
    t'.locate p = .ok p.place ∧ t'.node? p.place = some (.file (.text s)) := by
  obtain ⟨-, hl, hd, rfl⟩ := write_inv h
  have hnode := node?_put (t := t) (not_root_of_node? hd) (.file (.text s))
  refine ⟨locate_mono hl fun ns n rest _ hdir => ?_, by rw [hnode, if_pos rfl]⟩
  have hne : Path.place { p with names := ns } ≠ p.place := fun he => hd (he ▸ hdir)
  rw [hnode, if_neg hne, hdir]

/-- A file with text in it is read with its line ends made alike. -/
theorem read_text {p : Path} {s : String} (hn : p.hasNul = false) (hl : t.locate p = .ok p.place)
    (hf : t.node? p.place = some (.file (.text s))) : t.read p = .ok (Text.unified s) := by
  have hcontent := contentOf_eq_ok.2 ⟨hl, hf⟩
  simp [read, readRaw, onPath, hn, hcontent, failing, contentText, bind, Except.bind, Except.map, Text.unified]

theorem last_append (place : Place) {names : List String} (hne : names ≠ []) :
    (place ++ names).getLastD "" = names.getLastD "" := by
  rw [List.getLastD_eq_getLast?, List.getLast?_append_of_ne_nil _ hne, ← List.getLastD_eq_getLast?]

/-- A file that is there is found below each directory that it lies in. -/
theorem mem_documentsBelow_of_node? {place : Place} {names : List String} {c : Content} (hne : names ≠ [])
    (hf : t.node? (place ++ names) = some (.file c)) (hname : isMarkdown (names.getLastD "") = true)
    (htop : place = [] → names.head? ≠ some "/") : names ∈ t.documentsBelow place := by
  have hmem : (place ++ names, Node.file c) ∈ t.nodes := by
    rw [node?_of_not_root t (not_root_of_node? (by rw [hf]; exact nofun))] at hf
    exact Keyed.mem_of_get?_eq_some hf
  have hbelow : (place ++ names, Node.file c) ∈ t.below place := by
    refine List.mem_filter.2 ⟨hmem, ?_⟩
    cases place with
    | nil => simpa [hne] using htop rfl
    | cons n place => simp [hne]
  rw [documentsBelow, List.mem_mergeSort]
  refine List.mem_map.2 ⟨_, List.mem_filter.2 ⟨hbelow, ?_⟩, List.drop_left⟩
  rw [last_append place hne, hname]
  rfl

/-- The documents below a place are the files that lie there under names of the right kind. -/
theorem Sound.mem_documentsBelow_iff (hs : t.Sound) {place : Place} {names : List String} :
    names ∈ t.documentsBelow place ↔ names ≠ [] ∧ (∀ n ∈ names, ProperName n) ∧
      isMarkdown (names.getLastD "") = true ∧ ∃ c, t.node? (place ++ names) = some (.file c) := by
  constructor
  · intro h
    have hne := ne_nil_of_mem_documentsBelow h
    refine ⟨hne, hs.proper.documentsBelow h, ?_⟩
    rw [Tree.documentsBelow, List.mem_mergeSort] at h
    obtain ⟨e, he, rfl⟩ := List.mem_map.1 h
    obtain ⟨he, hfile⟩ := List.mem_filter.1 he
    obtain ⟨hm, hplace, -⟩ := mem_below he
    obtain ⟨hkind, hname⟩ := Bool.and_eq_true_iff.1 hfile
    have hlast := last_append place hne
    have hnode := (hs.node?_eq_some_iff (hs.reachable e hm).2).2 hm
    rw [← hplace] at hlast ⊢
    refine ⟨hlast ▸ hname, ?_⟩
    cases hn : e.2 with
    | directory => simp [hn, isDirectory] at hkind
    | file c => exact ⟨c, hn ▸ hnode⟩
  · rintro ⟨hne, hproper, hname, c, hc⟩
    refine mem_documentsBelow_of_node? hne hc hname fun _ htop => ?_
    exact absurd (hproper "/" (List.mem_of_mem_head? htop)) (by decide)

/-- The documents below a place are in order, each once. -/
theorem Sound.documentsBelow_ordered (hs : t.Sound) (place : Place) : (t.documentsBelow place).Pairwise (· < ·) := by
  have hle : (t.documentsBelow place).Pairwise fun a b => (!decide (b < a)) = true := by
    refine List.pairwise_mergeSort (fun a b c hab hbc => ?_) (fun a b => ?_) _
    · simp only [Bool.not_eq_true', decide_eq_false_iff_not, not_lt] at *
      exact hab.trans hbc
    · simpa using le_total a b
  refine hle.imp₂ (fun a b hab hne => ?_) (hs.documentsBelow place).1
  exact lt_of_le_of_ne (by simpa using hab) hne

/-! Places stay within reach. -/

theorem Proper.write (ht : t.Proper) {p : Path} (hp : p.Usable) {s : String} (h : t.write p s = .ok t') :
    t'.Proper := by
  obtain ⟨-, -, -, rfl⟩ := write_inv h
  exact Keyed.forall_mem_put hp.reachable ht

theorem Proper.removeDirectory (ht : t.Proper) {p : Path} (h : t.removeDirectory p = .ok t') : t'.Proper := by
  obtain ⟨-, -, rfl⟩ := removeDirectory_inv h
  exact fun e he => ht e (List.mem_of_mem_filter he)

/-- What moves does not move below itself, and not to where something lies in a directory. -/
theorem renameAt_cases {old new : Path} (hlo : t.locate old = .ok old.place) (hln : t.locate new = .ok new.place)
    (h : t.renameAt old new = .ok t') :
    t' = t ∨ ¬ old.place <+: new.place ∧
      (t.node? new.place ≠ some .directory ∨ t.isEmptyAt new.place = true) ∧
      t' = t.relocate old.place new.place := by
  simp only [renameAt, hlo, hln, bind, Except.bind] at h
  split at h
  · cases h
  · split at h
    · cases h
      exact .inl rfl
    · split at h
      · cases h
      next hinto =>
        split at h
        · cases h
        · refine .inr ⟨by simpa using hinto, ?_⟩
          split at h
          · cases h
          · cases h
          · split at h
            next hempty =>
              cases h
              exact ⟨.inr hempty, rfl⟩
            · cases h
          next n _ _ _ _ hfile hdirectory =>
            cases h
            refine ⟨.inl fun hd => ?_, rfl⟩
            cases n with
            | directory => exact hdirectory rfl hd
            | file c => exact hfile c rfl hd

theorem reachable_append {place : Place} (hp : Place.Reachable place) {names : List String}
    (hn : ∀ n ∈ names, ProperName n) : Place.Reachable (place ++ names) := by
  obtain ⟨ns, hns, hproper⟩ := hp
  refine ⟨ns ++ names, hns.imp (congrArg (· ++ names)) (congrArg (· ++ names)), fun n hm => ?_⟩
  exact (List.mem_append.1 hm).elim (hproper n) (hn n)

/-- Whatever is moved, its names were proper before and are so afterwards. -/
theorem Proper.rename (ht : t.Proper) {old new : Path} (hnew : new.Usable) (h : t.rename old new = .ok t') :
    t'.Proper := by
  obtain ⟨-, hlo, hln, h⟩ := rename_inv h
  rcases renameAt_cases hlo hln h with rfl | ⟨hinto, -, rfl⟩
  · exact ht
  · intro e he
    obtain ⟨f, hf, rfl⟩ := List.mem_map.1 he
    have hreach := ht f (List.mem_of_mem_filter hf)
    split
    next hmoved =>
      refine reachable_append hnew.reachable fun n hn => ?_
      cases hold : old.place with
      | nil => exact absurd (hold ▸ List.nil_prefix) hinto
      | cons m place =>
        rw [hold, List.length_cons] at hn
        obtain ⟨ns, hns | hns, hproper⟩ := hreach
        · exact hproper n (hns ▸ List.mem_of_mem_drop hn)
        · rw [hns, List.drop_succ_cons] at hn
          exact hproper n (List.mem_of_mem_drop hn)
    next => exact hreach

end Tree

end Compendium
