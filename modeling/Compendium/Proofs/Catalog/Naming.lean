import Compendium.Proofs.Catalog.Mirroring
import Compendium.Proofs.Text.Blank

/-!
Names and paths of items. An allowed category and title lead to a path that goes two names below the base directory,
and from there a scan reads the same category and title.
-/
namespace Compendium

theorem Text.strip_strip (s : String) : strip (strip s) = strip s := by
  simp only [strip, String.toList_ofList]
  by_cases h : trim s.toList = []
  · rw [h]
    rfl
  · rw [(trimmed_trim h).trim_eq]

namespace Path

/-- A text joined to a path: one that begins with a slash starts anew, any other leads further. -/
def join (p : Path) (s : String) : Path :=
  let q := ofText s
  if q.slashes = 0 then { p with names := p.names ++ q.names } else q

/-- The names that lead from a directory down to a path, unless the path lies elsewhere. -/
def namesBelow? (directory p : Path) : Option (List String) :=
  if directory.slashes = p.slashes && directory.names.isPrefixOf p.names then some (p.names.drop directory.names.length)
  else none

/-- A name is a path of its own. -/
theorem ofText_name {n : String} (h : IsName n) : ofText n = ⟨0, [n]⟩ := by
  have hnormal : Normal ⟨0, [n]⟩ := ⟨Nat.zero_le 2, fun m hm => List.mem_singleton.1 hm ▸ h⟩
  have htext : text ⟨0, [n]⟩ = n := by simp [text]
  have hof := ofText_text hnormal
  rwa [htext] at hof

theorem join_name {n : String} (h : IsName n) (p : Path) : p.join n = p.child n := by
  rw [join, ofText_name h]
  rfl

/-- Names that were added to a directory are found again below it. -/
theorem namesBelow?_append (p : Path) (names : List String) :
    namesBelow? p { p with names := p.names ++ names } = some names := by
  simp [namesBelow?]

end Path

namespace Catalog

variable {c t : String}

/-- A name that has passed passes again as it is. -/
theorem validName_again {field name s : String} (h : validName field name = .ok s) : validName field s = .ok s := by
  obtain ⟨rfl, -⟩ := validName_ok h
  rwa [validName, Text.strip_strip, ← validName]

theorem pathOf_eq (base : Path) (c t : String) : pathOf base c t = fileAt base [c, t ++ suffix] := by
  simp [pathOf, fileAt, Path.child]

/-- A category and a title whose path a scan takes apart into the same two. -/
structure Decodes (base : Path) (c t : String) : Prop where
  joined : (base.join c).join (t ++ suffix) = pathOf base c t
  below : base.namesBelow? (pathOf base c t) = some [c, t ++ suffix]
  entry : entryOf [c, t ++ suffix] = (c, t)
  within : ∀ (tree : Tree) (place : Place), tree.locate (pathOf base c t) = .ok place →
    tree.locate base = .ok base.place ∧ place = base.place ++ [c, t ++ suffix]
  scanned : ∀ (tree : Tree) (content : Content), tree.find (pathOf base c t) = .ok (.file content) →
    [c, t ++ suffix] ∈ filesIn base tree

theorem pathOf_place (hc : c ≠ "..") (ht : '/' ∉ t.toList) (base : Path) :
    (pathOf base c t).place = base.place ++ [c, t ++ suffix] := by
  have hup : ".." ∉ [c, t ++ suffix] := by
    simpa using ⟨Ne.symm hc, Ne.symm (isName_suffix ht).2⟩
  rw [pathOf_eq, fileAt, Path.place, Place.follow_append, Place.follow_plain hup]
  rfl

theorem pathOf_not_root (hc : c ≠ "..") (ht : '/' ∉ t.toList) (base : Path) :
    ¬ Tree.IsRoot (pathOf base c t).place := by
  rw [pathOf_place hc ht]
  rintro (he | he) <;> simpa [Tree.top] using congrArg List.length he

/-- Names that pass the check come back from their path. -/
theorem decodes (hc : Path.IsName c) (hup : c ≠ "..") (ht : Path.IsName t) (base : Path) : Decodes base c t := by
  have hfile := (isName_suffix ht.2.2).1
  have hplace := pathOf_place hup ht.2.2 base
  have hwithin : ∀ (tree : Tree) (place : Place), tree.locate (pathOf base c t) = .ok place →
      tree.locate base = .ok base.place ∧ place = base.place ++ [c, t ++ suffix] := by
    intro tree place h
    rw [← hplace]
    refine ⟨?_, Tree.locate_eq_place h⟩
    rw [pathOf_eq] at h
    exact (Tree.locate_append (List.cons_ne_nil _ _) h).1
  refine ⟨?_, ?_, ?_, hwithin, fun tree content h => ?_⟩
  · rw [Path.join_name hc, Path.join_name hfile, pathOf]
  · rw [pathOf_eq]
    exact base.namesBelow?_append _
  · simp [entryOf, stemOf_suffix ht.1]
  · obtain ⟨hl, hnode⟩ := Tree.find_eq_ok.1 h
    rw [hplace] at hnode
    rw [filesIn, (hwithin tree _ hl).1]
    refine Tree.mem_documentsBelow_of_node? (List.cons_ne_nil _ _) hnode ?_ fun _ he => ?_
    · simp [Tree.isMarkdown, suffix]
    · exact hc.2.2 (Option.some.inj he ▸ List.mem_singleton_self _)

/-- Below any base directory, the path of an allowed category and title goes down to exactly the category and the title
with its suffix, and a scan reads the two back from it. No other allowed category and title have that path, or lead to
that place. Allowed names stay as they are when they are checked again. -/
theorem item_paths_decode {f g category title : String} (text : String) (hc : validName f category = .ok c)
    (ht : validName g title = .ok t) :
    let base := Path.ofText text
    Decodes base c t ∧ validName f c = .ok c ∧ validName g t = .ok t ∧
      ∀ {f' g' category' title' c' t' : String}, validName f' category' = .ok c' → validName g' title' = .ok t' →
        (c, t) ≠ (c', t') →
          (pathOf base c t).text ≠ (pathOf base c' t').text ∧
            (pathOf base c t).place ≠ (pathOf base c' t').place := by
  intro base
  obtain ⟨-, hcn, hup⟩ := validName_ok hc
  obtain ⟨-, htn, -⟩ := validName_ok ht
  have hdecodes := decodes hcn hup htn base
  refine ⟨hdecodes, validName_again hc, validName_again ht, fun {f' g' category' title' c' t'} hc' ht' hne => ?_⟩
  obtain ⟨-, hcn', hup'⟩ := validName_ok hc'
  obtain ⟨-, htn', -⟩ := validName_ok ht'
  -- what a scan reads from the names tells the two items apart
  have hnames : [c, t ++ suffix] ≠ [c', t' ++ suffix] := fun he => by
    have hentry := hdecodes.entry
    rw [he, (decodes hcn' hup' htn' base).entry] at hentry
    exact hne hentry.symm
  have hbase : base.Normal := Path.ofText_normal text
  constructor
  · intro he
    have hpath := Path.text_inj (pathOf_normal hbase hcn htn) (pathOf_normal hbase hcn' htn') he
    rw [pathOf_eq, pathOf_eq] at hpath
    exact hnames (List.append_cancel_left (congrArg Path.names hpath))
  · rw [pathOf_place hup htn.2.2, pathOf_place hup' htn'.2.2]
    exact fun he => hnames (List.append_cancel_left he)

/-- Names with dots in front, with blanks around, and with the ending of files in them. -/
theorem item_paths_decode_dots :
    validName "category" " .x " = .ok ".x" ∧ validName "title" "...a b.md\t" = .ok "...a b.md" ∧
      Decodes (Path.ofText "../kb//.") ".x" "...a b.md" := by
  have hc : validName "category" " .x " = .ok ".x" := rfl
  have ht : validName "title" "...a b.md\t" = .ok "...a b.md" := rfl
  exact ⟨hc, ht, (item_paths_decode "../kb//." hc ht).1⟩

end Catalog

end Compendium
