import Compendium.Proofs.Catalog.Naming
import Compendium.Proofs.Files.Moving

/-!
Where the paths of documents come from. However a knowledge base has come about, each of its documents has a path that
leads from a directory that was scanned, or from the base directory, down to a file, and has the category and the title
that a scan reads from the names on the way.
-/
namespace Compendium.Catalog

open Compendium.Action (runOn runOn_bind runOn_bind_ok Leads Frame)

/-- A document with the path of a file below one of some directories, and with the category and title of that file. -/
def Adopted (roots : List Path) (x : Source) : Prop :=
  ∃ root ∈ roots, ∃ names, names ≠ [] ∧ (∀ n ∈ names, ProperName n) ∧
    x.path = (fileAt root names).text ∧ (x.category, x.title) = entryOf names

/-- Files and documents in good order, where each document is the one of a file below one of some directories. -/
structure Adopting (roots : List Path) (b : Base) : Prop where
  store : b.store.Sound
  files : b.files.Sound
  adopted : ∀ x ∈ b.store.sources, Adopted roots x

def rootsOf (text : String) (others : List String) : List Path := (text :: others).map Path.ofText

/-- What a knowledge base can come to that is empty at first. Documents come and change by scans of some directories,
and by creating, rewriting and deleting; beside that time passes, files are edited, chunks and logs come and go, and
documents may be taken out. -/
inductive Reached (text : String) (others : List String) : Base → Prop where
  | new {b : Base} (store : b.store.New) (files : b.files.Sound) : Reached text others b
  | beside {b b' : Base} (h : Reached text others b) (store : b'.store.Sound) (files : b'.files.Sound)
      (sources : b'.store.sources ⊆ b.store.sources) : Reached text others b'
  | scan {b : Base} (h : Reached text others b) (root : String) (scanned : root ∈ text :: others) :
      Reached text others (runOn (Catalog.scan (Path.ofText root)) b).2
  | create {b : Base} (h : Reached text others b) (category title content : String) :
      Reached text others (runOn (Catalog.create (Path.ofText text) category title content) b).2
  | update {b : Base} (h : Reached text others b) (id category title content : String) :
      Reached text others (runOn (Catalog.update (Path.ofText text) id category title content) b).2
  | delete {b : Base} (h : Reached text others b) (id : String) : Reached text others (runOn (Catalog.delete id) b).2

section
variable {roots : List Path} {root base p : Path} {b b' : Base} {x : Source}

theorem fileAt_normal (hr : root.Normal) {names : List String} (hn : ∀ n ∈ names, ProperName n) :
    (fileAt root names).Normal where
  slashes := hr.slashes
  names n hm := (List.mem_append.1 hm).elim (hr.names n) fun hm => (hn n hm).isName

/-- The path of an adopted document can be read back, and leads to no root of the tree. -/
theorem Adopted.path_place (h : Adopted roots x) (hr : ∀ root ∈ roots, root.Normal) :
    ¬ Tree.IsRoot (Path.ofText x.path).place := by
  obtain ⟨root, hroot, names, hne, hproper, hpath, -⟩ := h
  rw [hpath, Path.ofText_text (fileAt_normal (hr root hroot) hproper), fileAt_place root hproper]
  exact not_root_below hne hproper

/-- A document for an allowed category and title is adopted by the base directory. -/
theorem adopted_target (hbase : base ∈ roots) {id category title content : String} (ht : Text.strip title ≠ "")
    (hinside : Inside base (target base category title)) : Adopted roots (sourceAt base id category title content) := by
  refine ⟨base, hbase, ownNames category title, List.cons_ne_nil _ _, hinside.target_names, ?_, ?_⟩
  · rw [sourceAt, target_eq]
    rfl
  · simp [sourceAt, entryOf, ownNames, stemOf_suffix ht]

theorem Adopting.noting (h : Adopting roots b) (es : List Entry) : Adopting roots (b.noting es) :=
  ⟨h.store, h.files, h.adopted⟩

theorem Adopting.stopped (h : Adopting roots b) (hs : Stopped b b') : Adopting roots b' where
  store := hs.store ▸ h.store
  files := hs.files.sound
  adopted x hx := h.adopted x (hs.store ▸ hx)

theorem Adopting.put (h : Adopting roots b) (hx : Adopted roots x) {s : Store} (hput : Store.PutIn x b.store s) :
    Adopting roots { b with store := s } where
  store := hput.sound
  files := h.files
  adopted y hy := by
    rcases (hput.mem_sources y).1 hy with rfl | ⟨hy, -⟩
    · exact hx
    · exact h.adopted y hy

/-! Single steps. -/

/-- A scan takes documents from files below its root only. -/
theorem Adopting.scan (h : Adopting roots b) (hroot : root ∈ roots) (hr : root.Normal) :
    Adopting roots (runOn (Catalog.scan root) b).2 := by
  rcases runOn_scan hr h.store h.files with ⟨e, hrun⟩ | ⟨t, changed, b', hrun, hgrown, -, hscan⟩
  · rwa [hrun]
  rw [hrun]
  refine ⟨hscan.sound, hscan.files ▸ hgrown.sound, fun x hx => ?_⟩
  by_cases hi : x.id ∈ changed
  · obtain ⟨names, hn, hx⟩ := hscan.fromFile x hx hi
    obtain ⟨hne, hproper⟩ := filesIn_proper hgrown.sound hn
    exact ⟨root, hroot, names, hne, hproper, hx.path, hx.entry⟩
  · exact h.adopted x (hscan.unreported x hx hi)

/-- A created document has the file that was written for it. -/
theorem Adopting.create (h : Adopting roots b) (hbase : base ∈ roots) (hb : base.Normal)
    (category title content : String) : Adopting roots (runOn (Catalog.create base category title content) b).2 := by
  have hcreation := runOn_create hb h.store h.files category title content
  cases hrun : runOn (Catalog.create base category title content) b with
  | mk outcome b' =>
    rw [hrun] at hcreation
    cases hcreation with
    | refused e hs => exact h.stopped hs
    | done d inside free placed issued =>
      refine ⟨placed.sound, placed.files, fun x hx => ?_⟩
      rcases (placed.sources x).1 hx with rfl | ⟨hx, -⟩
      · exact adopted_target hbase (create_standing hb h.store h.files hrun).titled inside
      · exact h.adopted x hx

/-- What deleting leaves are documents that were there before. -/
theorem Adopting.delete (h : Adopting roots b) (id : String) : Adopting roots (runOn (Catalog.delete id) b).2 := by
  rcases runOn_delete h.store h.files id with ⟨e, b', hrun, hs⟩ | ⟨b', x, hrun, -, -, hout⟩
  · rw [hrun]
    exact h.stopped hs
  · rw [hrun]
    exact ⟨hout.sound, hout.files, fun y hy => h.adopted y ((hout.sources y).1 hy).1⟩

/-! Rewriting, which may stop halfway. -/

def StaysAdopting (roots : List Path) (b b' : Base) : Prop := Adopting roots b → Adopting roots b'

theorem frame_staysAdopting : Frame (StaysAdopting roots) where
  refl _ h := h
  trans h h' hb := h' (h hb)
  noting _ es h := h.noting es

theorem adopting_writeFiles {f : Tree → Except Fault Tree} (h : ∀ t t', f t = .ok t' → t.Sound → t'.Sound) :
    Leads (StaysAdopting roots) (Action.writeFiles f) :=
  Action.leads_writeFiles frame_staysAdopting fun b t ht hb => ⟨hb.store, h b.files t ht hb.files, hb.adopted⟩

/-- Whatever lies at the old path, moving it leaves files and documents in good order. -/
theorem adopting_moveFile {old new : Path} (ho : ¬ Tree.IsRoot old.place) (hn : ¬ Tree.IsRoot new.place)
    (hnew : new.Normal) : Leads (StaysAdopting roots) (moveFile base old new) := by
  have hf : Frame (StaysAdopting roots) := frame_staysAdopting
  have htidy : Leads (StaysAdopting roots) (tidy base old.parent) := by
    refine Action.leads_bind hf (Action.leads_get hf) fun b => ?_
    split
    · exact adopting_writeFiles fun t t' h ht => ht.removeDirectory h
    · exact Action.leads_pure hf _
  dsimp only [moveFile]
  split
  · refine Action.leads_bind hf (Action.leads_readFiles hf _) fun found => ?_
    split
    · exact Action.leads_bind hf (adopting_writeFiles fun t t' h ht => ht.rename ho hn hnew h) fun _ => htidy
    · exact Action.leads_pure hf _
  · exact Action.leads_pure hf _

theorem adopting_putDocument {d : Document} (hd : Adopted roots d.source) :
    Leads (StaysAdopting roots) (Action.putDocument d) := by
  refine Action.leads_bind frame_staysAdopting (Action.leads_now frame_staysAdopting) fun now => ?_
  refine Action.leads_writeStore frame_staysAdopting fun b s hs hb => ?_
  obtain ⟨s', hs', hput⟩ := Store.put_outcome hb.store now d
  cases hs.symm.trans hs'
  exact hb.put hd hput

theorem adopting_deleteChunks (id : String) :
    Leads (StaysAdopting roots) (Action.writeStore (Store.deleteChunks id)) := by
  refine Action.leads_writeStore frame_staysAdopting fun b s hs hb => ?_
  obtain ⟨s', hs', hsound, hsources⟩ := Store.deleteChunks_outcome hb.store id
  cases hs.symm.trans hs'
  exact ⟨hsound, hb.files, fun x hx => hb.adopted x (hsources ▸ hx)⟩

/-- What holds where work starts holds where it ends if each piece of it keeps that. -/
theorem runOn_bind_keeps {α β : Type} {P : Base → Prop} {x : Action α} {f : α → Action β}
    (hx : P (runOn x b).2)
    (hf : ∀ a c, runOn x b = (.ok a, c) → P c → P (runOn (f a) c).2) : P (runOn (x >>= f) b).2 := by
  rw [runOn_bind]
  rcases hr : runOn x b with ⟨outcome, c⟩
  rw [hr] at hx
  cases outcome with
  | error e => exact hx
  | ok a => exact hf a c hr hx

/-- However a rewriting ends, each document has the path, the category and the title of one file. -/
theorem Adopting.update (h : Adopting roots b) (hr : ∀ root ∈ roots, root.Normal) (hbase : base ∈ roots)
    (id category title content : String) :
    Adopting roots (runOn (Catalog.update base id category title content) b).2 := by
  have hf : Frame (StaysAdopting roots) := frame_staysAdopting
  refine runOn_bind_keeps (by rwa [Action.runOn_ofExcept]) fun c b₁ hcategory h => ?_
  refine runOn_bind_keeps (by rwa [Action.runOn_ofExcept]) fun t b₂ htitle h => ?_
  obtain ⟨hc, -⟩ := runOn_ofExcept_ok hcategory
  obtain ⟨ht, -⟩ := runOn_ofExcept_ok htitle
  obtain ⟨rfl, hcn, hup⟩ := validName_ok hc
  obtain ⟨rfl, htn, -⟩ := validName_ok ht
  have hnormal : (target base category title).Normal := pathOf_normal (hr base hbase) hcn htn
  have hnew : ¬ Tree.IsRoot (target base category title).place := pathOf_not_root hup htn.2.2 base
  refine runOn_bind_keeps (Action.leads_document hf id b₂ h) fun d b₃ hread h => ?_
  have hstored : d.source ∈ b₃.store.sources := by
    rcases Action.runOn_document id b₂ with hno | ⟨-, es, hok⟩
    · cases hno.symm.trans hread
    · obtain ⟨ho, rfl⟩ := Prod.mk.inj (hok.symm.trans hread)
      exact (Store.document_outcome h.store ho).1
  have hold : ¬ Tree.IsRoot (Path.ofText d.path).place := (h.adopted d.source hstored).path_place hr
  refine runOn_bind_keeps (adopting_writeFiles (fun t t' hmake hs => ?_) b₃ h) fun _ b₄ _ h => ?_
  · exact (Tree.makeDirectories_grown hs hnormal.parent hmake).1.sound
  split
  -- the file moves first if the document has one; from then on the two cases are the same
  case' isTrue => refine runOn_bind_keeps (adopting_moveFile hold hnew hnormal b₄ h) fun _ b₅ _ h => ?_
  all_goals
    refine runOn_bind_keeps (adopting_writeFiles (fun t t' hwrite hs => ?_) _ h) fun _ b₆ hwrite h => ?_
    · exact (Tree.write_ok hs hnormal hwrite).sound
    have hinside : Inside base (target base category title) :=
      target_inside (hr base hbase) hc ht (Tree.onPath_ok (runOn_writeFiles_ok hwrite).1).1
    have hadopted : Adopted roots (sourceAt base d.id category title content) := adopted_target hbase htn.1 hinside
    refine (Action.leads_bind hf (Action.leads_now hf) fun now => ?_ : Leads (StaysAdopting roots) _) b₆ h
    refine Action.leads_bind hf (adopting_putDocument hadopted) fun _ => ?_
    refine Action.leads_bind hf (adopting_deleteChunks id) fun _ => ?_
    exact Action.leads_bind hf (Action.leads_log hf _ _ _ _ _) fun _ => Action.leads_document hf id

end

/-- However a knowledge base has come about, its documents are those of files below the directories that were scanned.
-/
theorem Reached.adopting {text : String} {others : List String} {b : Base} (h : Reached text others b) :
    Adopting (rootsOf text others) b := by
  have hr : ∀ root ∈ rootsOf text others, root.Normal := by
    intro root hroot
    obtain ⟨s, -, rfl⟩ := List.mem_map.1 hroot
    exact Path.ofText_normal s
  have hbase : Path.ofText text ∈ rootsOf text others := List.mem_cons_self
  induction h with
  | new store files =>
    refine ⟨store.sound, files, fun x hx => ?_⟩
    rw [store.holds_nothing.1] at hx
    cases hx
  | beside h store files sources ih => exact ⟨store, files, fun x hx => ih.adopted x (sources hx)⟩
  | scan h root scanned ih => exact ih.scan (List.mem_map_of_mem scanned) (Path.ofText_normal root)
  | create h category title content ih => exact ih.create hbase (Path.ofText_normal text) category title content
  | update h id category title content ih => exact ih.update hr hbase id category title content
  | delete h id ih => exact ih.delete id

end Compendium.Catalog
