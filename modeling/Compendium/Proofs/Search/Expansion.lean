import Mathlib.Algebra.Order.Ring.Rat
import Mathlib.Algebra.Field.Rat
import Compendium.Proofs.Runs
import Compendium.Proofs.Search.Neighbours
import Compendium.Proofs.Store.Holdings
import Compendium.Search.Retrieval

/-!
Adding context to matches. The chunks that were there are handed on from document to document, but documents share no
chunk ids, so each document adds the same whatever the others add, and one whose chunks cannot be listed is only left
out.
-/
namespace Compendium

open Number

namespace Search

section
variable {K : Type}

/-- The documents that matches come from, in the order of their first matches. -/
def documentsOf (ms : List (Match K)) : List String := (ms.map fun m => m.header.id).eraseDups

def matchesOf (d : String) (ms : List (Match K)) : List (Match K) := ms.filter fun m => m.header.id = d

theorem matchesOf_ne_nil {d : String} {ms : List (Match K)} (h : d ∈ documentsOf ms) : matchesOf d ms ≠ [] := by
  simpa [matchesOf, documentsOf, List.mem_eraseDups] using h

theorem nodup_eraseDups {α : Type} [BEq α] [LawfulBEq α] (l : List α) : l.eraseDups.Nodup := by
  induction hn : l.length using Nat.strong_induction_on generalizing l with
  | _ n ih =>
    cases l with
    | nil => exact List.nodup_nil
    | cons a l =>
      rw [List.eraseDups_cons, List.nodup_cons]
      have hlen : (l.filter fun b => !b == a).length < n := by
        have := List.length_filter_le (fun b => !b == a) l
        rw [List.length_cons] at hn
        omega
      exact ⟨by simp, ih _ hlen _ rfl⟩

theorem matchesOf_snoc (d : String) (ms : List (Match K)) (m : Match K) :
    matchesOf d (ms ++ [m]) = matchesOf d ms ++ if m.header.id = d then [m] else [] := by
  rw [matchesOf, List.filter_append, List.filter_singleton]
  simp [matchesOf]

theorem addToGroup_map {ms : List (Match K)} (m : Match K) {ds : List String} (hn : ds.Nodup) :
    addToGroup m (ds.map fun d => (d, matchesOf d ms)) =
      if m.header.id ∈ ds then ds.map fun d => (d, matchesOf d (ms ++ [m]))
      else ds.map (fun d => (d, matchesOf d (ms ++ [m]))) ++ [(m.header.id, [m])] := by
  induction ds with
  | nil => rfl
  | cons d ds ih =>
    obtain ⟨hd, hn⟩ := List.nodup_cons.1 hn
    rw [List.map_cons, addToGroup, List.map_cons, matchesOf_snoc]
    by_cases he : d = m.header.id
    · subst he
      have hrest : (ds.map fun d => (d, matchesOf d (ms ++ [m]))) = ds.map fun d => (d, matchesOf d ms) :=
        List.map_congr_left fun d' hd' => by
          rw [matchesOf_snoc, if_neg fun h : m.header.id = d' => hd (h ▸ hd'), List.append_nil]
      rw [if_pos rfl, if_pos List.mem_cons_self, if_pos rfl, hrest]
    · rw [if_neg he, if_neg (Ne.symm he), List.append_nil, ih hn]
      by_cases hm : m.header.id ∈ ds
      · rw [if_pos hm, if_pos (List.mem_cons_of_mem d hm)]
      · rw [if_neg hm, if_neg (by simpa [Ne.symm he] using hm), List.cons_append]

/-- The groups are the documents with their matches. -/
theorem groups_eq (ms : List (Match K)) : groups ms = (documentsOf ms).map fun d => (d, matchesOf d ms) := by
  induction ms using List.reverseRecOn with
  | nil => rfl
  | append_singleton ms m ih =>
    have hfold : groups (ms ++ [m]) = addToGroup m (groups ms) := by simp [groups]
    have hdocuments : documentsOf (ms ++ [m]) =
        documentsOf ms ++ if m.header.id ∈ documentsOf ms then [] else [m.header.id] := by
      rw [documentsOf, List.map_append, List.eraseDups_append]
      by_cases hm : ∃ n ∈ ms, n.header.id = m.header.id <;>
        simp [documentsOf, List.removeAll, List.eraseDups_cons, hm]
    have hnodup : (documentsOf ms).Nodup := nodup_eraseDups _
    rw [hfold, ih, addToGroup_map m hnodup, hdocuments]
    split
    · rw [List.append_nil]
    next hnew =>
      have hnone : matchesOf m.header.id ms = [] := by
        simpa [matchesOf, documentsOf, List.mem_eraseDups] using hnew
      rw [List.map_append, List.map_singleton, matchesOf_snoc, hnone, if_pos rfl, List.nil_append]

/-- The matches that are kept of several are the first ones with their chunks. -/
theorem distinct_eq (seen : List String) (ms : List (Match K)) :
    distinct seen ms =
      (ms.filter fun m => !seen.contains m.chunk.id).eraseDupsBy fun m n => m.chunk.id == n.chunk.id := by
  induction ms generalizing seen with
  | nil => rfl
  | cons m ms ih =>
    rw [distinct]
    by_cases hm : m.chunk.id ∈ seen
    · rw [if_pos (by simpa using hm), List.filter_cons_of_neg (by simpa using hm), ih]
    · rw [if_neg (by simpa using hm), List.filter_cons_of_pos (by simpa using hm), List.eraseDupsBy_cons, ih,
        List.filter_filter]
      congr 2
      exact List.filter_congr fun n _ => by simp [beq_eq_decide]

/-- Every chunk that was matched is among the matches that are kept. -/
theorem mem_distinct {i : String} {seen : List String} (h : i ∉ seen) (ms : List (Match K)) :
    (i ∈ (distinct seen ms).map fun m => m.chunk.id) ↔ i ∈ ms.map fun m => m.chunk.id := by
  induction ms generalizing seen with
  | nil => rfl
  | cons m ms ih =>
    rw [distinct, List.map_cons, List.mem_cons]
    split
    next hm =>
      have hne : i ≠ m.chunk.id := fun he => h (he ▸ by simpa using hm)
      rw [ih h, or_iff_right hne]
    · rw [List.map_cons, List.mem_cons]
      by_cases hi : i = m.chunk.id
      · simp [hi]
      · rw [ih (by simp [hi, h])]

theorem nodup_distinct (seen : List String) (ms : List (Match K)) :
    ((distinct seen ms).map fun m => m.chunk.id).Nodup ∧ ∀ m ∈ distinct seen ms, m.chunk.id ∉ seen := by
  induction ms generalizing seen with
  | nil => exact ⟨List.nodup_nil, nofun⟩
  | cons m ms ih =>
    rw [distinct]
    split
    · exact ih seen
    next hm =>
      obtain ⟨hnodup, hnew⟩ := ih (m.chunk.id :: seen)
      refine ⟨List.nodup_cons.2 ⟨fun h => ?_, hnodup⟩,
        List.forall_mem_cons.2 ⟨by simpa using hm, fun n hn h => ?_⟩⟩
      · obtain ⟨n, hn, he⟩ := List.mem_map.1 h
        exact hnew n hn (he ▸ List.mem_cons_self)
      · exact hnew n hn (List.mem_cons_of_mem _ h)

end

section
variable {K ε : Type} [Scalar K] {e : Expansion K} {listed : String → Except ε (List Chunk)}

/-- What is added are chunks of the document that were not there yet, each once. -/
theorem addedFor_new (ms : List (Match K)) (cs : List Chunk) (seen : List String) :
    ((addedFor e ms cs seen).map fun m => m.chunk.id).Nodup ∧
      ∀ m ∈ addedFor e ms cs seen, m.chunk ∈ cs ∧ m.chunk.id ∉ seen := by
  cases ms with
  | nil => exact ⟨List.nodup_nil, nofun⟩
  | cons first rest =>
    simp only [addedFor, List.map_map, List.forall_mem_map]
    exact ⟨nodup_neighbours, fun c hc => mem_neighbours hc⟩

/-- What is added for matches is marked, and shows the document of one of them. -/
theorem addedFor_marked {ms : List (Match K)} {cs : List Chunk} {seen : List String} :
    ∀ m ∈ addedFor e ms cs seen, m.expanded = true ∧ ∃ n ∈ ms, m.header = n.header := by
  cases ms with
  | nil => exact nofun
  | cons first rest =>
    simp only [addedFor, List.forall_mem_map]
    exact fun _ _ => ⟨trivial, first, List.mem_cons_self, rfl⟩

/-- Of the chunks seen before, only those of the document count. -/
theorem addedFor_congr {ms : List (Match K)} {cs : List Chunk} {seen seen' : List String}
    (h : ∀ c ∈ cs, c.id ∈ seen ↔ c.id ∈ seen') : addedFor e ms cs seen = addedFor e ms cs seen' := by
  cases ms with
  | nil => rfl
  | cons first rest => simp only [addedFor, neighbours_congr h]

variable (e listed) in
/-- Whatever is listed, no chunk is added that was there or was added before. -/
theorem nodup_addGroups (gs : List (String × List (Match K))) (seen : List String) :
    ((addGroups e listed seen gs).map fun m => m.chunk.id).Nodup ∧
      ∀ m ∈ addGroups e listed seen gs, m.chunk.id ∉ seen := by
  induction gs generalizing seen with
  | nil => exact ⟨List.nodup_nil, nofun⟩
  | cons g gs ih =>
    obtain ⟨d, ms⟩ := g
    rw [addGroups]
    cases listed d with
    | error f => exact ih seen
    | ok cs =>
      obtain ⟨hnodup, hnew⟩ := ih (seen ++ (addedFor e ms cs seen).map fun m => m.chunk.id)
      obtain ⟨hfirst, hfresh⟩ := addedFor_new (e := e) ms cs seen
      refine ⟨?_, fun m hm => ?_⟩
      · rw [List.map_append, List.nodup_append']
        refine ⟨hfirst, hnodup, fun i hi hi' => ?_⟩
        obtain ⟨m, hm, rfl⟩ := List.mem_map.1 hi'
        exact hnew m hm (List.mem_append_right _ hi)
      · rcases List.mem_append.1 hm with hm | hm
        · exact (hfresh m hm).2
        · exact fun h => hnew m hm (List.mem_append_left _ h)

/-- No chunk comes twice. -/
theorem nodup_expand (ms : List (Match K)) : ((expand e listed ms).map fun m => m.chunk.id).Nodup := by
  obtain ⟨hadded, hnew⟩ := nodup_addGroups e listed (groups ms) ((distinct [] ms).map fun m => m.chunk.id)
  rw [expand, List.map_append, List.nodup_append']
  refine ⟨(nodup_distinct [] ms).1, hadded, fun i hi hi' => ?_⟩
  obtain ⟨m, hm, rfl⟩ := List.mem_map.1 hi'
  exact hnew m hm hi

theorem addGroups_congr {listed' : String → Except ε (List Chunk)} {gs : List (String × List (Match K))}
    (h : ∀ g ∈ gs, listed g.1 = listed' g.1) (seen : List String) :
    addGroups e listed seen gs = addGroups e listed' seen gs := by
  induction gs generalizing seen with
  | nil => rfl
  | cons g gs ih =>
    obtain ⟨hg, hgs⟩ := List.forall_mem_cons.1 h
    simp only [addGroups, hg, ih hgs]

variable (e listed) in
/-- What one document adds to matches; nothing if its chunks cannot be listed. -/
def share (ms : List (Match K)) (d : String) : List (Match K) :=
  match listed d with
  | .error _ => []
  | .ok cs => addedFor e (matchesOf d ms) cs (ms.map fun m => m.chunk.id)

/-- What a document adds is marked, and stands under that document. -/
theorem share_marked {ms : List (Match K)} {d : String} :
    ∀ m ∈ share e listed ms d, m.expanded = true ∧ m.header.id = d := by
  unfold share
  cases listed d with
  | error f => exact nofun
  | ok cs =>
    intro m hm
    obtain ⟨hexpanded, n, hn, hheader⟩ := addedFor_marked m hm
    exact ⟨hexpanded, by rw [hheader, of_decide_eq_true (List.mem_filter.1 hn).2]⟩

def Separate (listed : String → Except ε (List Chunk)) : Prop :=
  ∀ d d' cs cs', listed d = .ok cs → listed d' = .ok cs' → d ≠ d' →
    ∀ c ∈ cs, ∀ c' ∈ cs', c.id ≠ c'.id

/-- Where no chunk is listed for two documents, what the documents before have added leaves open what one adds. -/
theorem addGroups_eq (h : Separate listed) (ms : List (Match K)) {ds : List String} (hn : ds.Nodup) {seen : List String}
    (hseen : ∀ d ∈ ds, ∀ cs, listed d = .ok cs →
      ∀ c ∈ cs, c.id ∈ seen ↔ c.id ∈ ms.map fun m => m.chunk.id) :
    addGroups e listed seen (ds.map fun d => (d, matchesOf d ms)) = ds.flatMap (share e listed ms) := by
  induction ds generalizing seen with
  | nil => rfl
  | cons d ds ih =>
    obtain ⟨hd, hn⟩ := List.nodup_cons.1 hn
    obtain ⟨hfirst, hrest⟩ := List.forall_mem_cons.1 hseen
    rw [List.map_cons, addGroups, List.flatMap_cons, share]
    cases hcs : listed d with
    | error f => exact ih hn hrest
    | ok cs =>
      have hadded : addedFor e (matchesOf d ms) cs seen = addedFor e (matchesOf d ms) cs (ms.map fun m => m.chunk.id) :=
        addedFor_congr (hfirst cs hcs)
      simp only [hadded]
      congr 1
      refine ih hn fun d' hd' cs' hcs' c' hc' => ?_
      rw [List.mem_append, or_iff_left, hrest d' hd' cs' hcs' c' hc']
      intro hi
      obtain ⟨m, hm, he⟩ := List.mem_map.1 hi
      have hne : d ≠ d' := fun he => hd (he ▸ hd')
      exact h d d' cs cs' hcs hcs' hne _ ((addedFor_new _ _ _).2 m hm).1 c' hc' he

/-- Where no chunk is listed for two documents, each document adds its share. -/
theorem expand_eq (h : Separate listed) (ms : List (Match K)) :
    expand e listed ms =
      ms.eraseDupsBy (fun m n => m.chunk.id == n.chunk.id) ++ (documentsOf ms).flatMap (share e listed ms) := by
  have hnodup : (documentsOf ms).Nodup := nodup_eraseDups _
  have hall : distinct [] ms = ms.eraseDupsBy fun m n => m.chunk.id == n.chunk.id := by simp [distinct_eq]
  rw [expand, groups_eq, addGroups_eq h ms hnodup, hall]
  exact fun d _ cs _ c _ => mem_distinct List.not_mem_nil ms

/-- Documents whose chunks are no longer listed add nothing, and the others add what they added before. -/
theorem expand_failing {listed' : String → Except ε (List Chunk)} {failing : String → Bool} (h : Separate listed)
    (hfail : ∀ d, failing d = true → ∃ f, listed' d = .error f)
    (hrest : ∀ d, failing d = false → listed' d = listed d) (ms : List (Match K)) :
    expand e listed' ms = ms.eraseDupsBy (fun m n => m.chunk.id == n.chunk.id) ++
      ((documentsOf ms).flatMap (share e listed ms)).filter fun m => !failing m.header.id := by
  have hkept {d : String} {cs : List Chunk} (hcs : listed' d = .ok cs) : listed d = .ok cs := by
    cases hd : failing d with
    | false => rwa [← hrest d hd]
    | true =>
      obtain ⟨f, hf⟩ := hfail d hd
      cases hf.symm.trans hcs
  have hseparate : Separate listed' := fun d d' cs cs' hcs hcs' => h d d' cs cs' (hkept hcs) (hkept hcs')
  rw [expand_eq hseparate, List.filter_flatMap]
  congr 1
  refine List.flatMap_congr fun d _ => ?_
  cases hd : failing d with
  | false =>
    rw [List.filter_eq_self.2 fun m hm => by simp [(share_marked m hm).2, hd], share, share, hrest d hd]
  | true =>
    obtain ⟨f, hf⟩ := hfail d hd
    rw [List.filter_eq_nil_iff.2 fun m hm => by simp [(share_marked m hm).2, hd], share, hf]

end

/-! What one document adds, in exact arithmetic. -/

section
open Exact

variable {K : Type} [LinearOrder K] [Field K]

/-- The context of one document's matches: the nearest chunks within reach of its most similar matches, shown with
its header and rated with a part of the greatest similarity among its matches. -/
structure Context (most reach room : Nat) (factor : K) (ms : List (Match K)) (chunks : List Chunk) (seen : List String)
    (added : List (Match K)) : Prop where
  chosen : Firsts room (Neighbouring most reach ms chunks seen) (Nearer ms) (added.map Match.chunk)
  shown : ∀ m ∈ added, m.expanded = true ∧ ms.head?.map Match.header = some m.header
  rated : ∀ m ∈ added, ∃ top, (ms.map Match.similarity).max? = some top ∧
    m.similarity = top * factor ∧ m.score = top * factor

theorem best_eq (first : K) (rest : List K) : (first :: rest).max? = some (best first rest) := by
  have hlarger : (Scalar.larger : K → K → K) = max := funext fun a => funext fun b => larger_eq_max a b
  rw [List.max?_cons', best, hlarger]

/-- What is added for a document is its context, as long as no limit is negative. -/
theorem addedFor_context {e : Expansion K} {ms : List (Match K)} {cs : List Chunk} {seen : List String}
    (hms : ms ≠ []) (hfrom : 0 ≤ e.fromMatches) (hd : 0 ≤ e.distance) (hcap : 2 * e.distance ≤ e.perMatch)
    (hmost : 0 ≤ e.perDocument)
    (hindex : (cs.map Chunk.index).Nodup) (hid : (cs.map Chunk.id).Nodup) (hseen : ∀ m ∈ ms, m.chunk.id ∈ seen) :
    Context e.fromMatches.toNat e.distance.toNat e.perDocument.toNat e.factor ms cs seen (addedFor e ms cs seen) := by
  cases ms with
  | nil => exact absurd rfl hms
  | cons first rest =>
    refine ⟨?_, ?_, ?_⟩
    · have hchunks : (addedFor e (first :: rest) cs seen).map Match.chunk = neighbours e (first :: rest) cs seen := by
        simp [addedFor, Function.comp_def]
      exact hchunks ▸ neighbours_firsts hfrom hd hcap hmost hindex hid hseen
    · simp only [addedFor, List.forall_mem_map]
      exact fun _ _ => ⟨trivial, rfl⟩
    · simp only [addedFor, List.forall_mem_map]
      exact fun _ _ => ⟨_, best_eq _ _, rfl, rfl⟩

/-- With the usual limits a document adds up to eight chunks within two places of its three best matches. -/
theorem share_context {ε : Type} {listed : String → Except ε (List Chunk)} {ms : List (Match K)} {d : String}
    {cs : List Chunk} (hd : d ∈ documentsOf ms) (hcs : listed d = .ok cs) (hindex : (cs.map Chunk.index).Nodup)
    (hid : (cs.map Chunk.id).Nodup) :
    Context 3 2 8 (8 / 10) (matchesOf d ms) cs (ms.map fun m => m.chunk.id) (share .standard listed ms d) := by
  have hseen : ∀ m ∈ matchesOf d ms, m.chunk.id ∈ ms.map fun m => m.chunk.id :=
    fun m hm => List.mem_map_of_mem (List.mem_of_mem_filter hm)
  have hfactor : (Scalar.ratio 8 10 : K) = 8 / 10 := by simp [Scalar.ratio]
  simp only [share, hcs, Expansion.standard, hfactor]
  exact addedFor_context (e := ⟨3, 4, 2, 8, 8 / 10⟩) (matchesOf_ne_nil hd) (by simp) (by simp) (by simp)
    (by simp) hindex hid hseen

end

end Search

/-! Running it. -/

def Base.listing (b : Base) (d : String) : Except Fault (List Chunk) :=
  if b.refusals.listing d then .error (.store .locked) else (Store.chunksOf d b.store).outcome

@[simp] theorem Base.noting_listing (b : Base) (es : List Entry) : (b.noting es).listing = b.listing := rfl

theorem Base.chunksOf_of_listing {b : Base} {d : String} {cs : List Chunk} (h : b.listing d = .ok cs) :
    (Store.chunksOf d b.store).outcome = .ok cs := by
  rw [listing] at h
  split at h
  · cases h
  · exact h

/-- Where the ids of chunks differ, no chunk is listed for two documents. -/
theorem Base.separate_listing {b : Base} (h : b.store.chunkIds.Nodup) : Search.Separate b.listing :=
  fun _ _ _ _ hcs hcs' hne _ hc _ hc' =>
    Store.chunksOf_apart h (chunksOf_of_listing hcs) (chunksOf_of_listing hcs') hne hc hc'

theorem Action.runOn_chunksOf (d : String) (b : Base) : ∃ es, runOn (chunksOf d) b = (b.listing d, b.noting es) := by
  rw [chunksOf, runOn_bind, runOn_refuseIf]
  cases hd : b.refusals.listing d with
  | true => exact ⟨[], by simp [Base.listing, Base.noting, hd]⟩
  | false =>
    have hlisting : b.listing d = (Store.chunksOf d b.store).outcome := if_neg (by simp [hd])
    exact ⟨_, hlisting ▸ runOn_readStore _ _⟩

namespace Retriever

open Compendium.Action (runOn)

/-- Documents are listed in turn; only a failure that is not the store's ends it. -/
theorem runOn_listEach (ds : List String) (b : Base) :
    ∃ es, runOn (listEach ds) b = (.ok (ds.map fun d => (d, b.listing d)), b.noting es) ∨
      ∃ d ∈ ds, ∃ f, b.listing d = .error f ∧ f.isA .store = false ∧
        runOn (listEach ds) b = (.error f, b.noting es) := by
  induction ds generalizing b with
  | nil => exact ⟨[], .inl (by simp [listEach, Base.noting])⟩
  | cons d ds ih =>
    obtain ⟨es, hd⟩ := Action.runOn_chunksOf d b
    let rest : Action (List (String × Except Fault (List Chunk))) := do return (d, b.listing d) :: (← listEach ds)
    have hrest (es : List Entry) : ∃ es', runOn rest (b.noting es) =
          (.ok ((d :: ds).map fun d => (d, b.listing d)), b.noting es') ∨
        ∃ d' ∈ d :: ds, ∃ f, b.listing d' = .error f ∧ f.isA .store = false ∧
          runOn rest (b.noting es) = (.error f, b.noting es') := by
      obtain ⟨es', h | ⟨d', hd', f, hf, hkind, h⟩⟩ := ih (b.noting es)
      · exact ⟨es ++ es', .inl (by simp [rest, h, Except.map, Base.noting_noting])⟩
      · exact ⟨es ++ es', .inr ⟨d', List.mem_cons_of_mem d hd', f, hf, hkind, by
          simp [rest, h, Except.map, Base.noting_noting]⟩⟩
    rw [listEach, Action.runOn_bind, Action.runOn_attempt, hd]
    cases hl : b.listing d with
    | ok cs =>
      obtain ⟨es', h⟩ := hrest es
      simp only [rest, hl] at h
      exact ⟨es', h⟩
    | error f =>
      cases hkind : f.isA .store with
      | false => exact ⟨es, .inr ⟨d, List.mem_cons_self, f, hl, hkind, by simp [hkind]⟩⟩
      | true =>
        obtain ⟨es', h⟩ := hrest (es ++ [_])
        simp only [rest, hl, Action.runOn_bind] at h
        simp only [hkind, Bool.not_true, Bool.false_eq_true, if_false, Action.runOn_bind, Action.runOn_log,
          Base.noting_noting]
        exact ⟨es', h⟩

/-- Adding context to matches comes to what the listings of their documents make of them, or to a failure to list
that is not the store's. -/
theorem runOn_expand (e : Search.Expansion Float) (ms : List (Match Float)) (b : Base) :
    ∃ es, runOn (expand e ms) b = (.ok (Search.expand e b.listing ms), b.noting es) ∨
      ∃ d ∈ Search.documentsOf ms, ∃ f, b.listing d = .error f ∧ f.isA .store = false ∧
        runOn (expand e ms) b = (.error f, b.noting es) := by
  rw [expand]
  split
  next hms =>
    obtain rfl := List.isEmpty_iff.1 hms
    exact ⟨[], .inl (by simp [Search.expand, Search.groups, Search.distinct, Search.addGroups, Base.noting])⟩
  next hms =>
    have hkeys : (Search.groups ms).map (·.1) = Search.documentsOf ms := by simp [Search.groups_eq, Function.comp_def]
    obtain ⟨es, h | ⟨d, hd, f, hf, hkind, h⟩⟩ := runOn_listEach (Search.documentsOf ms) b
    · have hout : Search.expand e
          (fun id => (Keyed.get? id ((Search.documentsOf ms).map fun d => (d, b.listing d))).getD (.ok [])) ms =
          Search.expand e b.listing ms := by
        rw [Search.expand, Search.expand, Search.addGroups_congr]
        intro g hg
        rw [Keyed.get?_map b.listing (hkeys ▸ List.mem_map_of_mem hg)]
        rfl
      simp only [Action.runOn_bind, hkeys, h, hout]
      split
      · exact ⟨_, .inl (Prod.ext rfl (Base.noting_noting _ _ _))⟩
      · exact ⟨es, .inl rfl⟩
    · exact ⟨es, .inr ⟨d, hd, f, hf, hkind, by simp [Action.runOn_bind, hkeys, h]⟩⟩

theorem expand_eq_ok {e : Search.Expansion Float} {ms out : List (Match Float)} {b : Base}
    (h : (runOn (expand e ms) b).1 = .ok out) : out = Search.expand e b.listing ms := by
  obtain ⟨es, hrun | ⟨d, hd, f, hf, hkind, hrun⟩⟩ := runOn_expand e ms b
  · rw [hrun] at h
    cases h
    rfl
  · rw [hrun] at h
    cases h

/-- An expansion goes through if only the store keeps chunks from being listed. -/
theorem expand_ok (e : Search.Expansion Float) {ms : List (Match Float)} {b : Base}
    (h : ∀ d ∈ Search.documentsOf ms, ∀ f, b.listing d = .error f → f.isA .store = true) :
    (runOn (expand e ms) b).1 = .ok (Search.expand e b.listing ms) := by
  obtain ⟨es, hrun | ⟨d, hd, f, hf, hkind, -⟩⟩ := runOn_expand e ms b
  · rw [hrun]
  · rw [h d hd f hf] at hkind
    cases hkind

section
open Exact

/-- With the usual limits, where chunks have ids of their own and in each document indexes of their own, the matches
come first, each chunk once, and each document follows with its context. Whatever the limits and the store, no chunk
comes twice. -/
theorem expand_adds_context :
    (∀ b : Base, b.store.chunkIds.Nodup → (∀ d, ∃ cs, b.listing d = .ok cs ∧ (cs.map Chunk.index).Nodup) →
      (∀ ms : List (Match Float), (runOn (expand .standard ms) b).1 = .ok (Search.expand .standard b.listing ms)) ∧
        ∀ (K : Type) [LinearOrder K] [Field K] (ms : List (Match K)), ∃ added : String → List (Match K),
          Search.expand .standard b.listing ms =
              ms.eraseDupsBy (fun m n => m.chunk.id == n.chunk.id) ++ (Search.documentsOf ms).flatMap added ∧
            ∀ d ∈ Search.documentsOf ms, ∃ cs, b.listing d = .ok cs ∧
              Search.Context 3 2 8 (8 / 10) (Search.matchesOf d ms) cs (ms.map fun m => m.chunk.id) (added d)) ∧
      ∀ (b : Base) (e : Search.Expansion Float) (ms out : List (Match Float)),
        (runOn (expand e ms) b).1 = .ok out → (out.map fun m => m.chunk.id).Nodup := by
  refine ⟨fun b hids hlists => ⟨fun ms => expand_ok _ fun d _ f hf => ?_, fun K _ _ ms => ?_⟩,
    fun b e ms out h => ?_⟩
  · obtain ⟨cs, hcs, -⟩ := hlists d
    cases hcs.symm.trans hf
  · refine ⟨_, Search.expand_eq (Base.separate_listing hids) ms, fun d hd => ?_⟩
    obtain ⟨cs, hcs, hindex⟩ := hlists d
    exact ⟨cs, hcs, Search.share_context hd hcs hindex (Store.nodup_chunksOf hids (Base.chunksOf_of_listing hcs))⟩
  · rw [expand_eq_ok h]
    exact Search.nodup_expand ms

def lined : Base where
  store := .memory
    { documents := [
        ("a", ⟨"a", "X", "a", "", "a.md", none, none⟩),
        ("b", ⟨"b", "X", "b", "", "b.md", none, none⟩)]
      chunks := [
        ("a", [⟨"a-0", "a", 0, "", none, none⟩, ⟨"a-1", "a", 1, "", none, none⟩,
          ⟨"a-2", "a", 2, "", none, none⟩, ⟨"a-3", "a", 3, "", none, none⟩,
          ⟨"a-4", "a", 4, "", none, none⟩, ⟨"a-5", "a", 5, "", none, none⟩]),
        ("b", [⟨"b-0", "b", 0, "", none, none⟩, ⟨"b-1", "b", 1, "", none, none⟩])] }

def amid {K : Type} (similarity : K) : Match K :=
  ⟨⟨"a-2", "a", 2, "", none, none⟩, ⟨"a", "X", "a"⟩, similarity, similarity, false⟩

theorem lined_listing (d : String) : ∃ cs, lined.listing d = .ok cs ∧ (cs.map Chunk.index).Nodup := by
  refine ⟨_, rfl, ?_⟩
  by_cases ha : d = "a"
  · subst ha
    decide
  · by_cases hb : d = "b"
    · subst hb
      decide
    · simp [Memory.chunksOf, Keyed.get?_cons, Ne.symm ha, Ne.symm hb]

/-- A match amid six chunks gets the neighbours on both sides. -/
theorem expand_adds_context_lined :
    ∃ added : String → List (Match ℚ),
      Search.expand .standard lined.listing [amid (1 / 2 : ℚ)] = [amid (1 / 2)] ++ added "a" ∧
        ∃ cs, lined.listing "a" = .ok cs ∧
          Search.Context 3 2 8 (8 / 10) [amid (1 / 2 : ℚ)] cs ["a-2"] (added "a") := by
  obtain ⟨added, hout, hadded⟩ :=
    (expand_adds_context.1 lined (by decide +kernel) lined_listing).2 ℚ [amid (1 / 2)]
  have hdocuments : Search.documentsOf [amid (1 / 2 : ℚ)] = ["a"] := rfl
  refine ⟨added, ?_, hadded "a" (hdocuments ▸ List.mem_cons_self)⟩
  rw [hout, hdocuments, List.flatMap_singleton]
  rfl

end

/-- Documents whose chunks cannot be listed add nothing, and the others add what they would have added. -/
theorem failing_documents_add_nothing {b c : Base} (hids : b.store.chunkIds.Nodup) (e : Search.Expansion Float)
    (ms : List (Match Float)) (hlists : ∀ d ∈ Search.documentsOf ms, ∃ cs, b.listing d = .ok cs)
    (failing : String → Bool)
    (hfail : ∀ d, failing d = true → ∃ f, c.listing d = .error f ∧ f.isA .store = true)
    (hrest : ∀ d, failing d = false → c.listing d = b.listing d) :
    ∃ added, (∀ m ∈ added, m.expanded = true) ∧
      (runOn (expand e ms) b).1 = .ok (ms.eraseDupsBy (fun m n => m.chunk.id == n.chunk.id) ++ added) ∧
      (runOn (expand e ms) c).1 =
        .ok (ms.eraseDupsBy (fun m n => m.chunk.id == n.chunk.id) ++ added.filter fun m => !failing m.header.id) := by
  have hb : Search.Separate b.listing := Base.separate_listing hids
  refine ⟨(Search.documentsOf ms).flatMap (Search.share e b.listing ms), fun m hm => ?_, ?_, ?_⟩
  · obtain ⟨d, -, hm⟩ := List.mem_flatMap.1 hm
    exact (Search.share_marked m hm).1
  · rw [expand_ok e fun d hd f hf => ?_, Search.expand_eq hb]
    obtain ⟨cs, hcs⟩ := hlists d hd
    cases hcs.symm.trans hf
  · have hraised : ∀ d, failing d = true → ∃ f, c.listing d = .error f :=
      fun d hd => (hfail d hd).imp fun _ => And.left
    rw [expand_ok e fun d hd f hf => ?_, Search.expand_failing hb hraised hrest]
    cases hfd : failing d with
    | false =>
      obtain ⟨cs, hcs⟩ := hlists d hd
      cases hcs.symm.trans ((hrest d hfd).symm.trans hf)
    | true =>
      obtain ⟨f', hf', hkind⟩ := hfail d hfd
      cases hf.symm.trans hf'
      exact hkind

/-- The listing of the longer document fails, and nothing is added for it. -/
theorem failing_documents_add_nothing_lined :
    ∃ added, (∀ m ∈ added, m.expanded = true) ∧
      (runOn (expand .standard [amid 0.5]) lined).1 = .ok ([amid 0.5] ++ added) ∧
      (runOn (expand .standard [amid 0.5]) { lined with refusals := { listing := fun d => d = "a" } }).1 =
        .ok ([amid 0.5] ++ added.filter fun m => !decide (m.header.id = "a")) := by
  refine failing_documents_add_nothing (by decide +kernel) .standard [amid 0.5] (fun d _ => ⟨_, rfl⟩)
    (fun d => decide (d = "a")) (fun d hd => ⟨.store .locked, ?_, rfl⟩) fun d hd => ?_
  · exact if_pos hd
  · exact if_neg (by simpa using hd)

end Retriever

end Compendium
