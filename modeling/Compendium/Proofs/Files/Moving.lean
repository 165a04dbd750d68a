import Compendium.Proofs.Files.Reading

/-!
Trees stay in good order when something is moved or removed in them, be it a file or a directory with all that lies
below it.
-/
namespace Compendium.Tree

variable {t t' : Tree} {old new : Place}

/-- Where a place lies after something was moved. -/
def shift (old new place : Place) : Place := if old.isPrefixOf place then new ++ place.drop old.length else place

theorem shift_append (old new rest : Place) : shift old new (old ++ rest) = new ++ rest := by
  simp [shift, List.isPrefixOf_iff_prefix]

theorem shift_outside {place : Place} (h : ¬ old <+: place) : shift old new place = place := by
  simp [shift, List.isPrefixOf_iff_prefix, h]

theorem not_root_append {place : Place} (h : ¬ IsRoot place) (rest : Place) : ¬ IsRoot (place ++ rest) := by
  rintro (hr | hr)
  · exact h (.inl (List.append_eq_nil_iff.1 hr).1)
  · rcases List.append_eq_singleton_iff.1 hr with ⟨hr, -⟩ | ⟨hr, -⟩
    · exact h (.inl hr)
    · exact h (.inr hr)

theorem not_prefix_root {place : Place} (h : ¬ IsRoot old) (hr : IsRoot place) : ¬ old <+: place := by
  rintro ⟨rest, rfl⟩
  exact not_root_append h rest hr

/-- What lay at the old place or below it has shifted; what was at the new one is gone. -/
theorem mem_relocate_iff {e : Place × Node} :
    e ∈ (t.relocate old new).nodes ↔ ∃ f ∈ t.nodes, f.1 ≠ new ∧ e = (shift old new f.1, f.2) := by
  simp only [relocate, without, Keyed.erase, List.mem_map, List.mem_filter, decide_eq_true_eq, ne_eq]
  refine exists_congr fun f => ?_
  have hshift : (if old.isPrefixOf f.1 then (new ++ f.1.drop old.length, f.2) else f) = (shift old new f.1, f.2) := by
    rw [shift]
    split <;> rfl
  rw [hshift, and_assoc]
  exact and_congr_right fun _ => and_congr_right fun _ => eq_comm

/-- Nothing lies at or below the place that something is moved to, unless it is removed. -/
def Vacant (t : Tree) (new : Place) : Prop := ∀ e ∈ t.nodes, new <+: e.1 → e.1 = new

/-- A place is vacant if no directory is there, or an empty one. -/
theorem Sound.vacant (hs : t.Sound) (hr : ¬ IsRoot new)
    (h : t.node? new ≠ some .directory ∨ t.isEmptyAt new = true) : t.Vacant new := by
  intro e he hp
  rcases h with hn | hempty
  · exact hs.eq_of_prefix hn he hp
  · by_contra hne
    exact not_prefix_of_isEmptyAt hempty hr he hne hp

/-- No two places come to lie in one. -/
theorem Sound.keys_relocated (hs : t.Sound) (hv : t.Vacant new) : (Keyed.keys (t.relocate old new).nodes).Nodup := by
  have hkeys : Keyed.keys (t.relocate old new).nodes = (Keyed.keys (Keyed.erase new t.nodes)).map (shift old new) := by
    simp only [relocate, Keyed.keys, List.map_map]
    refine List.map_congr_left fun e _ => ?_
    simp only [Function.comp_apply, shift]
    split <;> rfl
  have hfree : ∀ place ∈ Keyed.keys (Keyed.erase new t.nodes), ¬ new <+: place := by
    intro place hp hprefix
    obtain ⟨e, he, rfl⟩ := List.mem_map.1 hp
    obtain ⟨he, hne⟩ := List.mem_filter.1 he
    exact (by simpa using hne : e.1 ≠ new) (hv e he hprefix)
  rw [hkeys]
  refine (Keyed.nodup_keys_erase hs.keys).map_on fun x hx y hy h => ?_
  by_cases hxo : old <+: x <;> by_cases hyo : old <+: y
  · obtain ⟨r, rfl⟩ := hxo
    obtain ⟨r', rfl⟩ := hyo
    rw [shift_append, shift_append] at h
    rw [List.append_cancel_left h]
  · obtain ⟨r, rfl⟩ := hxo
    rw [shift_append, shift_outside hyo] at h
    exact absurd (h ▸ List.prefix_append new r) (hfree y hy)
  · obtain ⟨r, rfl⟩ := hyo
    rw [shift_append, shift_outside hxo] at h
    exact absurd (h ▸ List.prefix_append new r) (hfree x hx)
  · rwa [shift_outside hxo, shift_outside hyo] at h

/-- Directories go along with what is moved. -/
theorem Sound.directory_relocated (hs : t.Sound) (ho : ¬ IsRoot old) (hn : ¬ IsRoot new) (hv : t.Vacant new)
    {place : Place} (hd : t.node? place = some .directory) (hne : place ≠ new) :
    (t.relocate old new).node? (shift old new place) = some .directory := by
  by_cases hr : IsRoot place
  · rw [shift_outside (not_prefix_root ho hr)]
    exact node?_root _ hr
  · have hmem : (shift old new place, Node.directory) ∈ (t.relocate old new).nodes :=
      mem_relocate_iff.2 ⟨_, (hs.node?_eq_some_iff hr).1 hd, hne, rfl⟩
    have hshift : ¬ IsRoot (shift old new place) := by
      by_cases hp : old <+: place
      · obtain ⟨rest, rfl⟩ := hp
        rw [shift_append]
        exact not_root_append hn rest
      · rwa [shift_outside hp]
    rw [node?_of_not_root _ hshift, Keyed.get?_eq_some_iff (hs.keys_relocated hv)]
    exact hmem

/-- Moving to a vacant place in a directory keeps a tree in good order. -/
theorem Sound.relocate (hs : t.Sound) (ho : ¬ IsRoot old) (hn : ¬ IsRoot new) (hnew : Place.Reachable new)
    (hinto : ¬ old <+: new) (hv : t.Vacant new) (hparent : t.node? new.dropLast = some .directory) :
    (t.relocate old new).Sound where
  keys := hs.keys_relocated hv
  reachable e he := by
    obtain ⟨f, hf, -, rfl⟩ := mem_relocate_iff.1 he
    obtain ⟨hreach, hroot⟩ := hs.reachable f hf
    by_cases hp : old <+: f.1
    · obtain ⟨rest, hrest⟩ := hp
      rw [← hrest, shift_append]
      refine ⟨?_, not_root_append hn rest⟩
      obtain ⟨m, place, rfl⟩ := List.exists_cons_of_ne_nil fun h => ho (.inl h)
      refine reachable_append hnew fun n hm => ?_
      obtain ⟨ns, hns | hns, hproper⟩ := hreach
      · exact hproper n (hns ▸ hrest ▸ List.mem_append_right _ hm)
      · rw [← hrest, List.cons_append] at hns
        exact hproper n ((List.cons.inj hns).2 ▸ List.mem_append_right _ hm)
    · rw [shift_outside hp]
      exact ⟨hreach, hroot⟩
  parents e he := by
    obtain ⟨f, hf, -, rfl⟩ := mem_relocate_iff.1 he
    have hstays : ∀ place, t.node? place = some .directory → ¬ old <+: place → place ≠ new →
        (t.relocate old new).node? place = some .directory := fun place hd hp hne => by
      have := hs.directory_relocated ho hn hv hd hne
      rwa [shift_outside hp] at this
    have hdir := hs.parents f hf
    by_cases hp : old <+: f.1
    · obtain ⟨rest, hrest⟩ := hp
      rw [← hrest, shift_append]
      rcases List.eq_nil_or_concat rest with rfl | ⟨rest, n, rfl⟩
      · rw [List.append_nil]
        exact hstays _ hparent (fun hp => hinto (hp.trans (List.dropLast_prefix new))) (not_root_dropLast_ne hn)
      · rw [← hrest, List.concat_eq_append, ← List.append_assoc, List.dropLast_concat] at hdir
        rw [List.concat_eq_append, ← List.append_assoc, List.dropLast_concat, ← shift_append old]
        exact hs.directory_relocated ho hn hv hdir fun he => hinto (he ▸ List.prefix_append old rest)
    · rw [shift_outside hp]
      refine hstays _ hdir (fun hq => hp (hq.trans (List.dropLast_prefix f.1))) fun hq => ?_
      have hself : f.1 = new := hv f hf (hq ▸ List.dropLast_prefix f.1)
      exact not_root_dropLast_ne hn (hself ▸ hq)

/-- Whatever is moved below a directory, the tree is in good order afterwards. -/
theorem Sound.rename (hs : t.Sound) {old new : Path} (ho : ¬ IsRoot old.place) (hn : ¬ IsRoot new.place)
    (hnew : new.Normal) (h : t.rename old new = .ok t') : t'.Sound := by
  obtain ⟨hnul, hlo, hln, h⟩ := rename_inv h
  have husable : new.Usable := ⟨hnew, hnul⟩
  rcases renameAt_cases hlo hln h with rfl | ⟨hinto, hvacant, rfl⟩
  · exact hs
  · exact hs.relocate ho hn husable.reachable hinto (hs.vacant hn hvacant) (hs.locate_parent hln)

theorem Sound.removeDirectory (hs : t.Sound) {p : Path} (h : t.removeDirectory p = .ok t') : t'.Sound := by
  by_cases hr : IsRoot p.place
  · obtain ⟨-, -, rfl⟩ := removeDirectory_inv h
    have hkeep : t.without p.place = t := by
      rw [Tree.without, Keyed.erase_of_not_mem]
      intro hm
      obtain ⟨e, he, hplace⟩ := List.mem_map.1 hm
      exact (hs.reachable e he).2 (hplace ▸ hr)
    rwa [hkeep]
  · exact (removeDirectory_ok hs hr h).1.sound

end Compendium.Tree
