import Compendium.Proofs.Number.Comparison
import Compendium.Proofs.Report.Trailer
import Compendium.Proofs.Store.Upkeep

/-!
The blocks of a report. Matches are grouped, the most similar one of each group is picked out, and the group is sorted
anew; nothing is lost or shown twice on the way, and among several fragments exactly one is marked.
-/
namespace Compendium.Report

open Compendium.Number Compendium.Search

section Primary

variable {K P : Type} [Scalar K] [LinearOrder P] [OrderBot P] (sc : Scale K P)

/-- The first of the most similar of several matches. One whose similarity is no number compares with nothing: it
is passed over, unless it comes first. -/
def FirstMostSimilar (p : Match K) (ms : List (Match K)) : Prop :=
  ∃ before after, ms = before ++ p :: after ∧
    (∀ m ∈ before, sc.place m.similarity < sc.place p.similarity) ∧
    (⊥ < sc.place p.similarity → ∀ m ∈ after, sc.place m.similarity ≤ sc.place p.similarity)

variable {sc}

theorem FirstMostSimilar.mem {p : Match K} {ms : List (Match K)} (h : FirstMostSimilar sc p ms) : p ∈ ms := by
  obtain ⟨before, after, rfl, -, -⟩ := h
  simp

/-- One more match takes the first place only if it is more similar. -/
theorem FirstMostSimilar.snoc {p : Match K} {ms : List (Match K)} (h : FirstMostSimilar sc p ms) (m : Match K) :
    FirstMostSimilar sc (if Scalar.lt p.similarity m.similarity then m else p) (ms ++ [m]) := by
  obtain ⟨before, after, rfl, hbefore, hafter⟩ := h
  split
  next hlt =>
    obtain ⟨hp, hless⟩ := (sc.lt_iff _ _).1 hlt
    refine ⟨before ++ p :: after, [], rfl, ?_, by simp⟩
    intro k hk
    rcases List.mem_append.1 hk with hk | hk
    · exact (hbefore k hk).trans hless
    rcases List.mem_cons.1 hk with rfl | hk
    · exact hless
    · exact (hafter hp k hk).trans_lt hless
  next hlt =>
    refine ⟨before, after ++ [m], by simp, hbefore, ?_⟩
    intro hp k hk
    rcases List.mem_append.1 hk with hk | hk
    · exact hafter hp k hk
    · obtain rfl := List.mem_singleton.1 hk
      rw [sc.lt_iff, not_and, not_lt] at hlt
      exact hlt hp

variable (sc) in
/-- The fold over the matches finds the first of the most similar ones. -/
theorem mostSimilar_first (m : Match K) (rest : List (Match K)) :
    FirstMostSimilar sc (mostSimilar m rest) (m :: rest) := by
  have hfold : ∀ (rest seen : List (Match K)) (best : Match K), FirstMostSimilar sc best seen →
      FirstMostSimilar sc (mostSimilar best rest) (seen ++ rest) := by
    intro rest
    induction rest with
    | nil =>
      intro seen best h
      rwa [List.append_nil]
    | cons k rest ih =>
      intro seen best h
      rw [List.append_cons]
      exact ih _ _ (h.snoc k)
  exact hfold rest [m] m ⟨[], [], rfl, by simp, by simp⟩

end Primary

variable {K : Type}

/-! Blocks and documents. -/

section Grouping

variable [Scalar K]

def blockOf (d : String) (m : Match K) (rest : List (Match K)) : Block K :=
  ⟨d, mostSimilar m rest, inDocumentOrder (m :: rest)⟩

theorem blocks_eq (ms : List (Match K)) :
    blocks ms = (documentsOf ms).filterMap fun d =>
      match matchesOf d ms with
      | [] => none
      | m :: rest => some (blockOf d m rest) := by
  rw [blocks, groups_eq, List.filterMap_map]
  exact List.filterMap_congr fun d _ => by
    dsimp only [Function.comp_apply]
    cases matchesOf d ms <;> rfl

theorem mem_blocks {b : Block K} {ms : List (Match K)} (h : b ∈ blocks ms) :
    ∃ m rest, matchesOf b.document ms = m :: rest ∧ b = blockOf b.document m rest := by
  rw [blocks_eq] at h
  obtain ⟨d, -, hb⟩ := List.mem_filterMap.1 h
  cases hd : matchesOf d ms with
  | nil =>
    rw [hd] at hb
    cases hb
  | cons m rest =>
    rw [hd] at hb
    obtain rfl : blockOf d m rest = b := Option.some.inj hb
    exact ⟨m, rest, hd, rfl⟩

/-- There is one block for each document, in the order of their first matches. -/
theorem map_document_blocks (ms : List (Match K)) : (blocks ms).map Block.document = documentsOf ms := by
  have hsome : ∀ d ∈ documentsOf ms, (match matchesOf d ms with
      | [] => none
      | m :: rest => some (blockOf d m rest)).map Block.document = some d := by
    intro d hd
    cases hm : matchesOf d ms with
    | nil => exact absurd hm (matchesOf_ne_nil hd)
    | cons m rest => rfl
  rw [blocks_eq, List.map_filterMap, List.filterMap_congr hsome, List.filterMap_some]

/-- A block holds all matches of its document, each once. -/
theorem fragments_perm {b : Block K} {ms : List (Match K)} (h : b ∈ blocks ms) :
    b.fragments.Perm (matchesOf b.document ms) := by
  obtain ⟨m, rest, hm, hb⟩ := mem_blocks h
  rw [hm, hb]
  exact List.mergeSort_perm _ _

/-- And it holds them in the order of their chunks. -/
theorem fragments_ordered {b : Block K} {ms : List (Match K)} (h : b ∈ blocks ms) :
    b.fragments.Pairwise fun m n => m.chunk.index ≤ n.chunk.index := by
  obtain ⟨m, rest, -, hb⟩ := mem_blocks h
  rw [hb]
  refine (List.pairwise_mergeSort ?_ ?_ _).imp of_decide_eq_true
  · intro a b c hab hbc
    exact decide_eq_true ((of_decide_eq_true hab).trans (of_decide_eq_true hbc))
  · intro a b
    simpa using le_total a.chunk.index b.chunk.index

/-- Every match is in one block, once. -/
theorem flatMap_fragments_perm (ms : List (Match K)) : ((blocks ms).flatMap Block.fragments).Perm ms := by
  have hmatches : ((blocks ms).flatMap Block.fragments).Perm
      ((blocks ms).flatMap fun b => matchesOf b.document ms) := List.Perm.flatMap_left _ fun b hb => fragments_perm hb
  have hdocuments : ((blocks ms).flatMap fun b => matchesOf b.document ms) =
      (documentsOf ms).flatMap fun d => matchesOf d ms := by rw [← map_document_blocks, List.flatMap_map]
  rw [hdocuments] at hmatches
  have hkeys : ∀ m ∈ ms, m.header.id ∈ documentsOf ms := fun m hm =>
    List.mem_eraseDups.2 (List.mem_map.2 ⟨m, hm, rfl⟩)
  have hnodup : (documentsOf ms).Nodup := nodup_eraseDups _
  exact hmatches.trans (Store.perm_flatMap_filter _ hnodup hkeys)

end Grouping

/-! Lines. -/

def fragment (marker : String) (f : Match K × Nat) : List String :=
  ["  [Fragment " ++ toString f.2 ++ marker ++ "]", f.1.chunk.text]

/-- The fragments of a block, numbered from one on. One alone is shown without a number; of several, the most similar
one alone is marked. -/
inductive Body (b : Block K) : List String → Prop where
  | alone (h : b.fragments = [b.primary]) : Body b ["Content:", b.primary.chunk.text]
  | several (before after : List (Match K)) (h : b.fragments = before ++ b.primary :: after)
      (hmore : before ++ after ≠ []) :
      Body b ("Content (in document order):" ::
        ((before.zipIdx 1).flatMap (fragment "") ++ fragment " [primary match]" (b.primary, before.length + 1) ++
          (after.zipIdx (before.length + 2)).flatMap (fragment "")))

theorem fragmentsFrom_append (b : Block K) (position : Nat) (ms ns : List (Match K)) :
    fragmentsFrom b position (ms ++ ns) =
      fragmentsFrom b position ms ++ fragmentsFrom b (position + ms.length) ns := by
  induction ms generalizing position with
  | nil => rfl
  | cons m ms ih =>
    rw [List.cons_append, fragmentsFrom, fragmentsFrom, ih, List.append_assoc, List.length_cons]
    congr 3
    omega

/-- Fragments of other chunks than the most similar one bear no mark. -/
theorem fragmentsFrom_others {b : Block K} {ms : List (Match K)} (h : ∀ m ∈ ms, m.chunk.id ≠ b.primary.chunk.id)
    (position : Nat) : fragmentsFrom b position ms = (ms.zipIdx position).flatMap (fragment "") := by
  induction ms generalizing position with
  | nil => rfl
  | cons m ms ih =>
    obtain ⟨hm, hms⟩ := List.forall_mem_cons.1 h
    rw [fragmentsFrom, ih hms, List.zipIdx_cons, List.flatMap_cons, fragmentLines, if_neg hm, fragment]

/-- Where the chunks differ, exactly one of several fragments is marked. -/
theorem body_of_nodup {b : Block K} (hmem : b.primary ∈ b.fragments)
    (hids : (b.fragments.map fun m => m.chunk.id).Nodup) :
    Body b (match b.fragments with
      | [_] => ["Content:", b.primary.chunk.text]
      | ms => "Content (in document order):" :: fragmentsFrom b 1 ms) := by
  obtain ⟨before, after, hsplit⟩ := List.append_of_mem hmem
  by_cases hmore : before ++ after = []
  · obtain ⟨rfl, rfl⟩ := List.append_eq_nil_iff.1 hmore
    rw [hsplit]
    exact .alone hsplit
  · have hbody : (match b.fragments with
        | [_] => ["Content:", b.primary.chunk.text]
        | ms => "Content (in document order):" :: fragmentsFrom b 1 ms) =
        "Content (in document order):" :: fragmentsFrom b 1 b.fragments := by
      split
      next m hone =>
        have hlength := congrArg List.length (hone.symm.trans hsplit)
        simp only [List.length_append, List.length_cons, List.length_nil] at hlength
        exact absurd (List.append_eq_nil_iff.2
          ⟨List.length_eq_zero_iff.1 (by omega), List.length_eq_zero_iff.1 (by omega)⟩) hmore
      · rfl
    rw [hsplit, List.map_append, List.map_cons, List.nodup_middle, List.nodup_cons, List.mem_append] at hids
    have hbefore : ∀ m ∈ before, m.chunk.id ≠ b.primary.chunk.id := fun m hm he =>
      hids.1 (.inl (he ▸ List.mem_map_of_mem hm))
    have hafter : ∀ m ∈ after, m.chunk.id ≠ b.primary.chunk.id := fun m hm he =>
      hids.1 (.inr (he ▸ List.mem_map_of_mem hm))
    have hmarked : fragmentLines b (1 + before.length) b.primary =
        fragment " [primary match]" (b.primary, before.length + 1) := by
      rw [fragmentLines, if_pos rfl, Nat.add_comm, fragment]
    rw [hbody, hsplit, fragmentsFrom_append, fragmentsFrom, fragmentsFrom_others hbefore, fragmentsFrom_others hafter,
      hmarked, ← List.append_assoc, show 1 + before.length + 1 = before.length + 2 by omega]
    exact .several before after hsplit hmore

theorem blocksFrom_eq [Scalar K] (percent : K → String) (position : Nat) (bs : List (Block K)) :
    blocksFrom percent position bs = (bs.zipIdx position).flatMap fun b => blockLines percent b.2 b.1 := by
  induction bs generalizing position with
  | nil => rfl
  | cons b bs ih => rw [blocksFrom, ih, List.zipIdx_cons, List.flatMap_cons]

/-! Reports. -/

section

variable {P : Type} [Scalar K] [LinearOrder P] [OrderBot P] (sc : Scale K P) (percent : K → String)

/-- A block that shows the matches of its document in the order of their chunks, and the similarity of the first of the
most similar ones. -/
structure Shows (ms : List (Match K)) (b : Block K) : Prop where
  complete : b.fragments.Perm (ms.filter fun m => m.header.id = b.document)
  ordered : b.fragments.Pairwise fun m n => m.chunk.index ≤ n.chunk.index
  primary : FirstMostSimilar sc b.primary (ms.filter fun m => m.header.id = b.document)
  lines : ∀ position, ∃ body, Body b body ∧ blockLines percent position b =
    ("--- Result " ++ toString position ++ " (similarity: " ++ percent b.primary.similarity ++ ") ---") ::
      ("Source: [" ++ b.primary.header.category ++ "] " ++ b.primary.header.title ++ " (ID: " ++ b.primary.header.id ++
        ")") :: body ++ [""]

/-- The blocks of a report on matches: one for each document, in the order in which the documents first appear, numbered
from one on, and with every match in one of them. -/
structure Laid (ms : List (Match K)) (bs : List (Block K)) : Prop where
  lines : resultLines percent ms =
    ("Found " ++ toString ms.length ++ " relevant knowledge chunks (including context expansion):") :: "" ::
      ((bs.zipIdx 1).flatMap fun b => blockLines percent b.2 b.1) ++ [trailer (foundDocuments ms)]
  documents : bs.map Block.document = (ms.map fun m => m.header.id).eraseDups
  complete : (bs.flatMap Block.fragments).Perm ms
  shown : ∀ b ∈ bs, Shows sc percent ms b

theorem shows_of_mem {ms : List (Match K)} (hids : (ms.map fun m => m.chunk.id).Nodup) {b : Block K}
    (hb : b ∈ blocks ms) : Shows sc percent ms b where
  complete := fragments_perm hb
  ordered := fragments_ordered hb
  primary := by
    obtain ⟨m, rest, hm, he⟩ := mem_blocks hb
    change FirstMostSimilar sc b.primary (matchesOf b.document ms)
    rw [hm, he]
    exact mostSimilar_first sc m rest
  lines position := by
    have hmem : b.primary ∈ b.fragments := by
      obtain ⟨m, rest, hm, he⟩ := mem_blocks hb
      rw [he]
      exact List.mem_mergeSort.2 (mostSimilar_first sc m rest).mem
    have hnodup : (b.fragments.map fun m => m.chunk.id).Nodup := by
      refine ((fragments_perm hb).map _).nodup_iff.2 ?_
      exact hids.sublist (List.filter_sublist.map _)
    exact ⟨_, body_of_nodup hmem hnodup, rfl⟩

/-- A report on matches of different chunks has one block for each document, in the order in which the documents first
appear, and each match in one block. In a block the matches stand in the order of their chunks, and of several exactly
one is marked: the first of the most similar ones, whose similarity the block shows. -/
theorem results_laid (query : String) {ms : List (Match K)} (h : ms ≠ [])
    (hids : (ms.map fun m => m.chunk.id).Nodup) :
    results percent query ms = joinLines (resultLines percent ms) ∧ ∃ bs, Laid sc percent ms bs := by
  refine ⟨if_neg (by simpa using h), blocks ms, ?_, ?_, flatMap_fragments_perm ms, ?_⟩
  · rw [resultLines, blocksFrom_eq]
  · exact map_document_blocks ms
  · exact fun b hb => shows_of_mem sc percent hids hb

end

/-- Two documents by turns, one of them with two matches of its greatest similarity. -/
theorem results_laid_tied :
    let found (chunk document : String) (index : Int) (similarity : Float) : Match Float :=
      ⟨⟨chunk, document, index, chunk, none, none⟩, ⟨document, "C", "T"⟩, similarity, similarity, false⟩
    let ms := [found "a2" "a" 2 0.5, found "b0" "b" 0 0.9, found "a1" "a" 1 0.7, found "a0" "a" 0 0.7]
    ms ≠ [] ∧ (ms.map fun m => m.chunk.id).Nodup ∧
      results percentText "q" ms = joinLines (resultLines percentText ms) ∧
      ∃ bs, Laid floatScale percentText ms bs := by
  intro found ms
  have hne : ms ≠ [] := List.cons_ne_nil _ _
  have hids : (ms.map fun m => m.chunk.id).Nodup := by decide
  exact ⟨hne, hids, results_laid floatScale percentText "q" hne hids⟩

end Compendium.Report
