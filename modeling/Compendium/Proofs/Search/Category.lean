import Compendium.Proofs.Search.Expansion
import Compendium.Proofs.Store.Category

/-!
Searches within a category. Candidates are of the category, and context comes from the documents of matches, so what a
store holds of other categories shows nowhere in what is found.
-/
namespace Compendium

open Number

namespace Search

section
variable {K : Type}

theorem distinct_subset (seen : List String) (ms : List (Match K)) : distinct seen ms ⊆ ms := by
  induction ms generalizing seen with
  | nil => exact List.Subset.refl _
  | cons m ms ih =>
    rw [distinct]
    split
    · exact List.subset_cons_of_subset m (ih seen)
    · exact List.cons_subset_cons m (ih _)

variable [Scalar K]

variable {ε : Type} {e : Expansion K} {listed : String → Except ε (List Chunk)}

/-- An added match shows a chunk of a document under the header of a match that was there. -/
theorem mem_addGroups {gs : List (String × List (Match K))} {seen : List String} {m : Match K}
    (h : m ∈ addGroups e listed seen gs) :
    ∃ g ∈ gs, (∃ cs, listed g.1 = .ok cs ∧ m.chunk ∈ cs) ∧ ∃ n ∈ g.2, m.header = n.header := by
  induction gs generalizing seen with
  | nil => cases h
  | cons g gs ih =>
    have hrest {seen : List String} (h : m ∈ addGroups e listed seen gs) :
        ∃ g' ∈ g :: gs, (∃ cs, listed g'.1 = .ok cs ∧ m.chunk ∈ cs) ∧ ∃ n ∈ g'.2, m.header = n.header :=
      (ih h).imp fun _ => And.imp_left (List.mem_cons_of_mem g)
    obtain ⟨d, ms⟩ := g
    rw [addGroups] at h
    split at h
    · exact hrest h
    next cs hcs =>
      rcases List.mem_append.1 h with h | h
      · exact ⟨_, List.mem_cons_self, ⟨cs, hcs, ((addedFor_new _ _ _).2 m h).1⟩, (addedFor_marked m h).2⟩
      · exact hrest h

/-- What is shown beside the matches are chunks of their documents. -/
theorem mem_expand {ms : List (Match K)} {m : Match K} (h : m ∈ expand e listed ms) :
    m ∈ ms ∨ ∃ n ∈ ms, m.header = n.header ∧ ∃ cs, listed n.header.id = .ok cs ∧ m.chunk ∈ cs := by
  rcases List.mem_append.1 h with h | h
  · exact .inl (distinct_subset _ _ h)
  · obtain ⟨g, hg, hchunk, n, hn, hheader⟩ := mem_addGroups h
    rw [groups_eq] at hg
    obtain ⟨d, -, rfl⟩ := List.mem_map.1 hg
    obtain ⟨hn, hd⟩ := List.mem_filter.1 hn
    exact .inr ⟨n, hn, hheader, by rwa [of_decide_eq_true hd]⟩

omit [Scalar K] in
theorem documentsOf_append {ms more : List (Match K)} (h : ∀ m ∈ more, ∃ n ∈ ms, m.header.id = n.header.id) :
    documentsOf (ms ++ more) = documentsOf ms := by
  have hnone : (more.map fun m => m.header.id).removeAll (ms.map fun m => m.header.id) = [] := by
    rw [List.removeAll, List.filter_eq_nil_iff]
    intro i hi
    obtain ⟨m, hm, rfl⟩ := List.mem_map.1 hi
    obtain ⟨n, hn, hid⟩ := h m hm
    simpa using ⟨n, hn, hid.symm⟩
  rw [documentsOf, List.map_append, List.eraseDups_append, hnone, List.eraseDups_nil, List.append_nil]
  rfl

omit [Scalar K] in
theorem distinct_eq_self {seen : List String} {ms : List (Match K)} (hn : (ms.map fun m => m.chunk.id).Nodup)
    (hseen : ∀ m ∈ ms, m.chunk.id ∉ seen) : distinct seen ms = ms := by
  induction ms generalizing seen with
  | nil => rfl
  | cons m ms ih =>
    obtain ⟨hm, hn⟩ := List.nodup_cons.1 hn
    obtain ⟨hnew, hseen⟩ := List.forall_mem_cons.1 hseen
    rw [distinct, if_neg (by simpa using hnew), ih hn fun n hn h => ?_]
    rcases List.mem_cons.1 h with h | h
    · exact hm (List.mem_map.2 ⟨n, hn, h⟩)
    · exact hseen n hn h

/-- Context of matches of different chunks brings no document in, drops none, and leaves their order. -/
theorem documentsOf_expand {ms : List (Match K)} (h : (ms.map fun m => m.chunk.id).Nodup) :
    documentsOf (expand e listed ms) = documentsOf ms := by
  rw [expand, distinct_eq_self h fun _ _ => List.not_mem_nil]
  refine documentsOf_append fun m hm => ?_
  obtain ⟨g, hg, -, n, hn, hheader⟩ := mem_addGroups hm
  rw [groups_eq] at hg
  obtain ⟨d, -, rfl⟩ := List.mem_map.1 hg
  exact ⟨n, List.mem_of_mem_filter hn, congrArg Header.id hheader⟩

end

end Search

namespace Retriever

open Compendium.Action (runOn runOn_bind Leads Frame)
open Store (SameWithin)

/-- Only the candidates of a store count for a search. -/
theorem search_congr (rt : Retriever) (r : Request) (limit : Option Numeral) (b : Base) {s : Store}
    (h : (Store.candidates r.riskType s).outcome = (Store.candidates r.riskType b.store).outcome) :
    (runOn (rt.search r limit) { b with store := s }).1 = (runOn (rt.search r limit) b).1 := by
  rw [search_outcome, search_outcome, embedQuery_outcome]
  dsimp only
  rw [h]

def KeepsListing (b c : Base) : Prop := c.listing = b.listing

theorem oversees_keepsListing : Oversees KeepsListing where
  refl _ := rfl
  trans h h' := h'.trans h
  noting _ _ := rfl
  asking _ _ := rfl
  tallying _ _ := rfl
  measuring _ _ := rfl

/-- Searching leaves the chunks of all documents alone. -/
theorem search_listing (rt : Retriever) (r : Request) (limit : Option Numeral) (b : Base) :
    (runOn (rt.search r limit) b).2.listing = b.listing := leads_search oversees_keepsListing rt r limit b

/-- Documents are listed alike where their listings are the same. -/
theorem listEach_congr {ds : List String} {b c : Base} (h : ∀ d ∈ ds, b.listing d = c.listing d) :
    (runOn (listEach ds) b).1 = (runOn (listEach ds) c).1 := by
  induction ds generalizing b c with
  | nil => rfl
  | cons d ds ih =>
    obtain ⟨hd, hds⟩ := List.forall_mem_cons.1 h
    obtain ⟨es, hb⟩ := Action.runOn_chunksOf d b
    obtain ⟨es', hc⟩ := Action.runOn_chunksOf d c
    have hrest (x : Except Fault (List Chunk)) (es es' : List Entry) :
        (runOn (do return (d, x) :: (← listEach ds)) (b.noting es)).1 =
          (runOn (do return (d, x) :: (← listEach ds)) (c.noting es')).1 := by
      have hds' := @ih (b.noting es) (c.noting es') hds
      simp [hds']
    rw [listEach, runOn_bind, runOn_bind, Action.runOn_attempt, Action.runOn_attempt, hb, hc, hd]
    cases c.listing d with
    | ok cs => exact hrest _ _ _
    | error f =>
      cases hkind : f.isA .store with
      | false => simp [hkind]
      | true =>
        have hlogged (entry entry' : Entry) := hrest (.error f) (es ++ [entry]) (es' ++ [entry'])
        simp only [runOn_bind] at hlogged
        simp only [hkind, Bool.not_true, Bool.false_eq_true, if_false, runOn_bind, Action.runOn_log, Base.noting_noting]
        exact hlogged _ _

/-- Context is the same where the documents of the matches have the same chunks. -/
theorem expand_congr (e : Search.Expansion Float) {ms : List (Match Float)} {b c : Base}
    (h : ∀ d ∈ Search.documentsOf ms, b.listing d = c.listing d) :
    (runOn (expand e ms) b).1 = (runOn (expand e ms) c).1 := by
  have hkeys : (Search.groups ms).map (·.1) = Search.documentsOf ms := by simp [Search.groups_eq, Function.comp_def]
  have hlisted := listEach_congr h
  rw [← hkeys] at hlisted
  rw [expand]
  split
  · rfl
  · rw [runOn_bind, runOn_bind]
    generalize runOn (listEach ((Search.groups ms).map (·.1))) b = x at hlisted ⊢
    generalize runOn (listEach ((Search.groups ms).map (·.1))) c = y at hlisted ⊢
    obtain ⟨r, b'⟩ := x
    obtain ⟨r', c'⟩ := y
    obtain rfl : r = r' := hlisted
    cases r with
    | error f => rfl
    | ok listed =>
      dsimp only
      split <;> rfl

/-- What is found belongs to documents of the category that was asked for. -/
theorem belongs_of_search {b : Base} (hs : b.store.Filed) {c : String} (hc : c ≠ "") (rt : Retriever) {r : Request}
    (hr : r.riskType = some c) (limit : Option Numeral) {ms : List (Match Float)}
    (h : (runOn (rt.search r limit) b).1 = .ok ms) : ∀ m ∈ ms, b.store.Belongs c m.header m.chunk := by
  intro m hm
  rw [search_outcome, hr] at h
  split at h
  · cases h
  · obtain ⟨vector, -, h⟩ := bind_eq_ok.1 h
    obtain ⟨ks, hks, h⟩ := bind_eq_ok.1 h
    cases h
    obtain ⟨rated, hrated, hchunk, hheader, -⟩ := Search.mem_rank hm
    obtain ⟨k, hk, rfl⟩ := List.mem_map.1 hrated
    rw [hchunk, hheader]
    exact Store.belongs_of_mem_candidates hs hc hks k hk

/-- A retrieval is a search, and the expansion of its matches where that is wanted. -/
theorem retrieve_outcome (rt : Retriever) (r : Request) (limit : Option Numeral) (b : Base) :
    (runOn (rt.retrieve r limit) b).1 = do
      let ms ← (runOn (rt.search r limit) b).1
      if rt.expands then (runOn (expand rt.expansion ms) (runOn (rt.search r limit) b).2).1 else return ms := by
  rw [retrieve, runOn_bind]
  rcases runOn (rt.search r limit) b with ⟨r, c⟩
  cases r with
  | error f => rfl
  | ok ms =>
    dsimp only
    cases rt.expands <;> rfl

/-- What is retrieved belongs to documents of the category that was asked for, the context included. -/
theorem belongs_of_retrieve {b : Base} (hs : b.store.Filed) {c : String} (hc : c ≠ "") (rt : Retriever) {r : Request}
    (hr : r.riskType = some c) (limit : Option Numeral) {out : List (Match Float)}
    (h : (runOn (rt.retrieve r limit) b).1 = .ok out) : ∀ m ∈ out, b.store.Belongs c m.header m.chunk := by
  intro m hm
  rw [retrieve_outcome] at h
  obtain ⟨ms, hms, h⟩ := bind_eq_ok.1 h
  have hall := belongs_of_search hs hc rt hr limit hms
  split at h
  · rw [expand_eq_ok h, search_listing] at hm
    rcases Search.mem_expand hm with hm | ⟨n, hn, hheader, cs, hcs, hchunk⟩
    · exact hall m hm
    · have hn := hall n hn
      exact hheader ▸ ⟨hn.shown, hn.category, cs, Base.chunksOf_of_listing hcs, hchunk⟩
  · cases h
    exact hall m hm

/-- Where stores hold the same of a category, the same is found in it. -/
theorem retrieve_congr {b : Base} (hs : b.store.Filed) (hids : b.store.chunkIds.Nodup) {c : String} (hc : c ≠ "")
    (rt : Retriever) {r : Request} (hr : r.riskType = some c) (limit : Option Numeral) {s : Store} (hs' : s.Filed)
    (h : SameWithin c b.store s) :
    (runOn (rt.search r limit) { b with store := s }).1 = (runOn (rt.search r limit) b).1 ∧
      (runOn (rt.retrieve r limit) { b with store := s }).1 = (runOn (rt.retrieve r limit) b).1 := by
  have hsearch : (runOn (rt.search r limit) { b with store := s }).1 = (runOn (rt.search r limit) b).1 :=
    rt.search_congr r limit b (hr ▸ h.candidates_eq hc hs hs' hids)
  refine ⟨hsearch, ?_⟩
  rw [retrieve_outcome, retrieve_outcome, hsearch]
  cases hms : (runOn (rt.search r limit) b).1 with
  | error f => rfl
  | ok ms =>
    simp only [bind, Except.bind]
    split
    · refine expand_congr rt.expansion fun d hd => ?_
      rw [search_listing, search_listing]
      obtain ⟨m, hm, rfl⟩ := List.mem_map.1 (List.mem_eraseDups.1 hd)
      have hm := belongs_of_search hs hc rt hr limit hms m hm
      rw [Base.listing, Base.listing, h.chunks _ hm.category hm.shown]
    · rfl

/-- Searches for a risk type, with their context or without, find the same in any store that holds the same of this
category, in particular after calls that spare it, and all that they find belongs to it. -/
theorem categories_apart {b : Base} (hs : b.store.Filed) (hids : b.store.chunkIds.Nodup) {c : String} (hc : c ≠ "")
    (rt : Retriever) {r : Request} (hr : r.riskType = some c) (limit : Option Numeral) :
    ∀ work ∈ [rt.search r limit, rt.retrieve r limit],
      (∀ s : Store, s.Filed → SameWithin c b.store s →
        (runOn work { b with store := s }).1 = (runOn work b).1) ∧
      (∀ calls, Sparing c b.store calls →
        (runOn work { b with store := b.store.after calls }).1 = (runOn work b).1) ∧
      ∀ ms, (runOn work b).1 = .ok ms → ∀ m ∈ ms, b.store.Belongs c m.header m.chunk := by
  have hafter {calls : List (Time × Call)} (hcalls : Sparing c b.store calls) :=
    retrieve_congr hs hids hc rt hr limit (hs.after calls) (Store.sameWithin_after hc hcalls)
  simp only [List.forall_mem_cons, List.not_mem_nil, false_implies, implies_true, and_true]
  exact ⟨⟨fun s hs' h => (retrieve_congr hs hids hc rt hr limit hs' h).1, fun calls h => (hafter h).1,
      fun ms h => belongs_of_search hs hc rt hr limit h⟩,
    ⟨fun s hs' h => (retrieve_congr hs hids hc rt hr limit hs' h).2, fun calls h => (hafter h).2,
      fun ms h => belongs_of_retrieve hs hc rt hr limit h⟩⟩

def shelved : Base where
  store := Store.empty.after
    (([.put Store.note, .replace "a" [Store.noteChunk 0], .put { Store.note with id := "b", category := "Y" },
      .replace "b" [{ Store.noteChunk 0 with id := "q" }]] : List Call).map fun call => (Time.ofUnixMicros 0, call))
  provider := fun _ _ => .vector [⟨1⟩]

/-- The other note changes its category, loses its chunk, and goes, and a new one comes. -/
def shelving : List (Time × Call) :=
  ([.put { Store.note with id := "b", category := "Z" }, .replace "b" [], .delete "b",
    .put { Store.note with id := "c", category := "Y" }] : List Call).map fun call => (Time.ofUnixMicros 0, call)

theorem sparing_shelving : Sparing "x" shelved.store shelving := by
  refine ⟨⟨by decide +kernel, ?_⟩, ?_, ?_, ⟨by decide +kernel, ?_⟩, trivial⟩
  · rintro d ⟨⟩
    decide +kernel
  · rintro d ⟨⟩
    decide +kernel
  · rintro d ⟨⟩
    decide +kernel
  · rintro d ⟨⟩

/-- A search in one category does not notice what happens to a note of the other. -/
theorem categories_apart_shelved :
    let asked : Request := ⟨"t", some "x", none, none⟩
    let rt : Retriever := {}
    shelved.store.Filed ∧ shelved.store.chunkIds.Nodup ∧ "x" ≠ "" ∧ Sparing "x" shelved.store shelving ∧
      (runOn (rt.retrieve asked) { shelved with store := shelved.store.after shelving }).1 =
        (runOn (rt.retrieve asked) shelved).1 := by
  intro asked rt
  have hfiled : shelved.store.Filed := Store.New.memory.filed.after _
  have hids : shelved.store.chunkIds.Nodup := by decide +kernel
  have hall := categories_apart hfiled hids (by decide) rt (r := asked) rfl none
  exact ⟨hfiled, hids, by decide, sparing_shelving, (hall _ (by simp)).2.1 shelving sparing_shelving⟩

end Retriever

end Compendium
