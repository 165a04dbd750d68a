import Mathlib.Order.Interval.Finset.Basic
import Mathlib.Order.Interval.Finset.Nat
import Mathlib.Data.Int.Interval
import Compendium.Proofs.Search.Policy
import Compendium.Search.Context

/-!
Which chunks are added for one document. The matches of a document are cut short, each has its neighbours collected
and cut short, and the collection is put in order and cut short again; what is left are the first chunks near one of
the best matches.
-/
namespace Compendium.Search

open Compendium.Number

/-! The first things of an order. -/

/-- The first `k` of the things with a property, or all of them if they are fewer. -/
structure Firsts {α : Type} (k : Nat) (wanted : α → Prop) (before : α → α → Prop) (xs : List α) : Prop where
  accepted : ∀ x ∈ xs, wanted x
  ordered : xs.Pairwise before
  rest : ∀ x ∈ xs, ∀ y, wanted y → y ∉ xs → before x y
  full : xs.length ≤ k ∧ (xs.length < k → ∀ x, wanted x → x ∈ xs)

/-- The front of a list in order holds the first things. -/
theorem firsts_take {α : Type} {before : α → α → Prop} {l : List α} (hl : l.Pairwise before) (k : Nat) :
    Firsts k (· ∈ l) before (l.take k) := by
  refine ⟨fun x hx => List.mem_of_mem_take hx, hl.take, fun x hx y hy hn => ?_, List.length_take_le k l,
    fun hk x hx => ?_⟩
  · rw [← List.take_append_drop k l] at hl hy
    exact (List.pairwise_append.1 hl).2.2 x hx y ((List.mem_append.1 hy).resolve_left hn)
  · rw [List.length_take] at hk
    rwa [List.take_of_length_le (by omega)]

theorem Firsts.congr {α : Type} {k : Nat} {wanted wanted' : α → Prop} {before : α → α → Prop} {xs : List α}
    (h : Firsts k wanted before xs) (heq : ∀ x, wanted x ↔ wanted' x) : Firsts k wanted' before xs := by
  rwa [show wanted' = wanted from funext fun x => propext (heq x).symm]

/-- In an ordered list, the first `k` items are those that fewer than `k` others come before. -/
theorem mem_take_iff_countP {α : Type} {R : α → α → Prop} [DecidableRel R] (hasymm : ∀ a b, R a b → ¬R b a)
    {l : List α}
    (hl : l.Pairwise R) {x : α} (hx : x ∈ l) (k : Nat) : x ∈ l.take k ↔ l.countP (fun y => R y x) < k := by
  obtain ⟨before, after, rfl⟩ := List.append_of_mem hx
  obtain ⟨-, hafter, hbefore⟩ := List.pairwise_append.1 hl
  have hall : before.countP (fun y => R y x) = before.length :=
    List.countP_eq_length.2 fun y hy => by simpa using hbefore y hy x List.mem_cons_self
  have hnone : (x :: after).countP (fun y => R y x) = 0 := by
    refine List.countP_eq_zero.2 (List.forall_mem_cons.2 ⟨?_, fun y hy => ?_⟩)
    · simpa using fun h => hasymm x x h h
    · simpa using hasymm x y ((List.pairwise_cons.1 hafter).1 y hy)
  rw [List.countP_append, hall, hnone, Nat.add_zero]
  constructor
  · intro h
    by_contra hk
    rw [List.take_append_of_le_length (Nat.not_lt.1 hk)] at h
    have hself := hbefore x (List.mem_of_mem_take h) x List.mem_cons_self
    exact hasymm x x hself hself
  · intro h
    rw [List.take_append, List.mem_append]
    right
    obtain ⟨n, hn⟩ : ∃ n, k - before.length = n + 1 := ⟨k - before.length - 1, by omega⟩
    rw [hn, List.take_succ_cons]
    exact List.mem_cons_self

/-! Chunks that are kept by their ids. -/

theorem mem_keepChunk {c x : Chunk} {xs : List Chunk} (h : x ∈ keepChunk c xs) : x = c ∨ x ∈ xs := by
  induction xs with
  | nil => exact .inl (List.mem_singleton.1 h)
  | cons d r ih =>
    rw [keepChunk] at h
    split at h
    · exact (List.mem_cons.1 h).imp_right (List.mem_cons_of_mem d)
    · rcases List.mem_cons.1 h with rfl | h
      · exact .inr List.mem_cons_self
      · exact (ih h).imp_right (List.mem_cons_of_mem d)

theorem ids_keepChunk (c : Chunk) (xs : List Chunk) :
    (keepChunk c xs).map Chunk.id =
      if c.id ∈ xs.map Chunk.id then xs.map Chunk.id else xs.map Chunk.id ++ [c.id] := by
  induction xs with
  | nil => simp [keepChunk]
  | cons d r ih =>
    rw [keepChunk]
    by_cases hd : d.id = c.id
    · simp [hd]
    · rw [if_neg hd, List.map_cons, ih]
      by_cases hr : c.id ∈ r.map Chunk.id
      · rw [if_pos hr, List.map_cons, if_pos (List.mem_cons_of_mem _ hr)]
      · rw [if_neg hr, List.map_cons, if_neg (by simpa [Ne.symm hd] using hr), List.cons_append]

/-- Going on from chunks that were kept, no id is kept twice and none is lost. -/
theorem foldl_keepChunk (cs : List Chunk) {kept : List Chunk} (hk : (kept.map Chunk.id).Nodup) :
    let all := cs.foldl (fun kept c => keepChunk c kept) kept
    (all.map Chunk.id).Nodup ∧ (∀ x ∈ all, x ∈ kept ∨ x ∈ cs) ∧
      ∀ i, i ∈ all.map Chunk.id ↔ i ∈ kept.map Chunk.id ∨ i ∈ cs.map Chunk.id := by
  induction cs generalizing kept with
  | nil => simp [hk]
  | cons c cs ih =>
    have hids := ids_keepChunk c kept
    have hnodup : ((keepChunk c kept).map Chunk.id).Nodup := by
      rw [hids]
      split
      · exact hk
      next hnew =>
        refine List.nodup_append.2 ⟨hk, by simp, fun i hi j hj he => hnew ?_⟩
        rwa [← List.mem_singleton.1 hj, ← he]
    have hmem : ∀ i, i ∈ (keepChunk c kept).map Chunk.id ↔ i ∈ kept.map Chunk.id ∨ i = c.id := fun i => by
      rw [hids]
      split
      next hold => exact ⟨.inl, fun h => h.elim id fun h => h ▸ hold⟩
      · rw [List.mem_append, List.mem_singleton]
    obtain ⟨hall, hfrom, hkept⟩ := ih hnodup
    refine ⟨hall, fun x hx => ?_, fun i => ?_⟩
    · rcases hfrom x hx with hx | hx
      · exact (mem_keepChunk hx).elim (fun h => .inr (h ▸ List.mem_cons_self)) .inl
      · exact .inr (List.mem_cons_of_mem c hx)
    · rw [List.foldl_cons, hkept i, hmem i, List.map_cons, List.mem_cons, or_assoc]

/-- Of chunks with ids of their own, all are kept and no others. -/
theorem mem_foldl_keepChunk {cs : List Chunk} (hids : ∀ c ∈ cs, ∀ d ∈ cs, c.id = d.id → c = d) {c : Chunk} :
    c ∈ cs.foldl (fun kept c => keepChunk c kept) [] ↔ c ∈ cs := by
  obtain ⟨-, hfrom, hkept⟩ := @foldl_keepChunk cs [] List.nodup_nil
  refine ⟨fun h => (hfrom c h).resolve_left List.not_mem_nil, fun h => ?_⟩
  obtain ⟨d, hd, hid⟩ := List.mem_map.1 ((hkept c.id).2 (.inr (List.mem_map_of_mem h)))
  rwa [← hids d ((hfrom d hd).resolve_left List.not_mem_nil) c h hid]

section
variable {K : Type} [Scalar K] (e : Expansion K)

def leading (ms : List (Match K)) : List (Match K) :=
  upTo e.fromMatches (ms.mergeSort fun a b => !Scalar.lt a.similarity b.similarity)

def collected (ms : List (Match K)) (chunks : List Chunk) (seen : List String) : List Chunk :=
  ((leading e ms).flatMap fun m => neighboursOf e m.chunk chunks seen).foldl (fun kept c => keepChunk c kept) []

variable {e} {ms : List (Match K)} {chunks : List Chunk} {seen : List String}

omit [Scalar K] in
/-- The chunks near a match, before they are cut short. -/
theorem mem_near {target c : Chunk} :
    c ∈ (chunks.filter fun c => c.id != target.id && !seen.contains c.id && 0 < gap c.index target.index &&
        gap c.index target.index ≤ e.distance) ↔
      c ∈ chunks ∧ c.id ≠ target.id ∧ c.id ∉ seen ∧ 0 < gap c.index target.index ∧
        gap c.index target.index ≤ e.distance := by
  simp [and_assoc]

omit [Scalar K] in
/-- Chunks with positions of their own leave room for two at each distance. -/
theorem length_near (target : Chunk) (seen : List String) (hindex : (chunks.map Chunk.index).Nodup)
    (hd : 0 ≤ e.distance) :
    ((chunks.filter fun c => c.id != target.id && !seen.contains c.id && 0 < gap c.index target.index &&
        gap c.index target.index ≤ e.distance).length : Int) ≤ 2 * e.distance := by
  set near := chunks.filter _ with hnear
  have hnodup : (near.map Chunk.index).Nodup := (List.filter_sublist.map Chunk.index).nodup hindex
  have hsub : (near.map Chunk.index).toFinset ⊆
      (Finset.Icc (target.index - e.distance) (target.index + e.distance)).erase target.index := fun i hi => by
    obtain ⟨c, hc, rfl⟩ := List.mem_map.1 (List.mem_toFinset.1 hi)
    obtain ⟨-, -, -, hpos, hle⟩ := mem_near.1 (hnear ▸ hc)
    simp only [gap] at hpos hle
    rw [Finset.mem_erase, Finset.mem_Icc]
    omega
  have hcard := Finset.card_le_card hsub
  rw [List.toFinset_card_of_nodup hnodup, List.length_map, Finset.card_erase_of_mem (Finset.mem_Icc.2 (by omega)),
    Int.card_Icc] at hcard
  omega

omit [Scalar K] in
/-- A neighbour is a stored chunk within reach that is not there yet. -/
theorem mem_neighboursOf {target c : Chunk} (h : c ∈ neighboursOf e target chunks seen) :
    c ∈ chunks ∧ c.id ∉ seen ∧ 0 < gap c.index target.index ∧ gap c.index target.index ≤ e.distance := by
  obtain ⟨hc, -, hnew, hnear⟩ := mem_near.1 (List.mem_mergeSort.1 ((upTo_sublist _ _).subset h))
  exact ⟨hc, hnew, hnear⟩

theorem nodup_collected : ((collected e ms chunks seen).map Chunk.id).Nodup :=
  (@foldl_keepChunk _ [] List.nodup_nil).1

theorem mem_flatMap_of_mem_collected {c : Chunk} (h : c ∈ collected e ms chunks seen) :
    ∃ m ∈ leading e ms, c ∈ neighboursOf e m.chunk chunks seen :=
  List.mem_flatMap.1 (((@foldl_keepChunk _ [] List.nodup_nil).2.1 c h).resolve_left List.not_mem_nil)

theorem neighbours_subset {c : Chunk} (h : c ∈ neighbours e ms chunks seen) : c ∈ collected e ms chunks seen :=
  List.mem_mergeSort.1 ((upTo_sublist _ _).subset h)

/-- The neighbours are chunks of the document that were not there yet. -/
theorem mem_neighbours {c : Chunk} (h : c ∈ neighbours e ms chunks seen) : c ∈ chunks ∧ c.id ∉ seen := by
  obtain ⟨m, -, hm⟩ := mem_flatMap_of_mem_collected (neighbours_subset h)
  exact ⟨(mem_neighboursOf hm).1, (mem_neighboursOf hm).2.1⟩

/-- No chunk is added twice for one document. -/
theorem nodup_neighbours : ((neighbours e ms chunks seen).map Chunk.id).Nodup :=
  ((upTo_sublist _ _).map Chunk.id).nodup (((List.mergeSort_perm _ _).map Chunk.id).nodup_iff.2 nodup_collected)

/-- Only the ids of the document's own chunks count among those that were there. -/
theorem neighbours_congr {seen' : List String} (h : ∀ c ∈ chunks, c.id ∈ seen ↔ c.id ∈ seen') :
    neighbours e ms chunks seen = neighbours e ms chunks seen' := by
  have hnear : ∀ target, neighboursOf e target chunks seen = neighboursOf e target chunks seen' := fun target => by
    unfold neighboursOf
    rw [List.filter_congr fun c hc => ?_]
    have hseen : seen.contains c.id = seen'.contains c.id := by simp [h c hc]
    rw [hseen]
  unfold neighbours
  simp only [hnear]

end

/-! The choice in exact arithmetic. -/

section
variable {K : Type} [LinearOrder K]

/-- Whether one of several matches is more similar than another, or as similar and earlier. -/
def Ahead (ms : List (Match K)) (i j : Fin ms.length) : Prop :=
  ms[j].similarity < ms[i].similarity ∨ ms[i].similarity = ms[j].similarity ∧ i < j

instance (ms : List (Match K)) : DecidableRel (Ahead ms) := fun _ _ => inferInstanceAs (Decidable (_ ∨ _))

/-- Whether a match is among the `k` most similar ones; of equals the earlier ones count. -/
def Foremost (k : Nat) (ms : List (Match K)) (i : Fin ms.length) : Prop :=
  (List.finRange ms.length).countP (fun j => Ahead ms j i) < k

/-- How far a chunk is from the nearest of some matches. -/
def remoteness (ms : List (Match K)) (c : Chunk) : Nat := ((ms.map fun m => gap c.index m.chunk.index).min?).getD 0

/-- The chunk that is nearer to some matches comes before the other; of equally near ones, the one with the smaller
index. -/
def Nearer (ms : List (Match K)) (c d : Chunk) : Prop :=
  remoteness ms c < remoteness ms d ∨ remoteness ms c = remoteness ms d ∧ c.index < d.index

/-- A chunk that is not there yet and is within reach of one of the most similar matches. -/
structure Neighbouring (most reach : Nat) (ms : List (Match K)) (chunks : List Chunk) (seen : List String) (c : Chunk) :
    Prop where
  stored : c ∈ chunks
  new : c.id ∉ seen
  near : ∃ i : Fin ms.length, Foremost most ms i ∧ 0 < gap c.index ms[i].chunk.index ∧
    gap c.index ms[i].chunk.index ≤ reach

theorem least_eq (ns : List Nat) : least ns = ns.min?.getD 0 := by
  induction ns with
  | nil => rfl
  | cons n ns ih =>
    cases ns with
    | nil => rfl
    | cons m ns => simp [least, ih, List.min?_cons]

end

open Exact

variable {K : Type} [LinearOrder K] [Field K] {e : Expansion K} {ms : List (Match K)} {chunks : List Chunk}
  {seen : List String}

/-- The leading matches are the foremost ones. -/
theorem mem_leading (he : 0 ≤ e.fromMatches) {m : Match K} :
    m ∈ leading e ms ↔ ∃ i : Fin ms.length, Foremost e.fromMatches.toNat ms i ∧ ms[i] = m := by
  let order := (List.finRange ms.length).mergeSort fun i j => decide (ms[j].similarity ≤ ms[i].similarity)
  have hperm : order.Perm (List.finRange ms.length) := List.mergeSort_perm _ _
  have hsorted : order.Pairwise (Ahead ms) :=
    pairwise_greatest_first (fun i : Fin ms.length => ms[i].similarity) (List.pairwise_lt_finRange _)
  have hlist : leading e ms = (order.take e.fromMatches.toNat).map ms.get := by
    have hsort : ms.mergeSort (fun a b => !Scalar.lt a.similarity b.similarity) = order.map ms.get := by
      conv_lhs => rw [← List.map_get_finRange ms]
      exact (List.map_mergeSort fun i _ j _ => by simp [← decide_not]).symm
    rw [leading, upTo_eq_take he, hsort, List.map_take]
  have hasymm : ∀ i j, Ahead ms i j → ¬Ahead ms j i := by
    rintro i j (h | ⟨heq, h⟩) (h' | ⟨heq', h'⟩)
    · exact lt_asymm h h'
    · exact h.ne heq'
    · exact h'.ne heq
    · exact lt_asymm h h'
  rw [hlist, List.mem_map]
  refine exists_congr fun i => and_congr ?_ Iff.rfl
  rw [mem_take_iff_countP hasymm hsorted (hperm.mem_iff.2 (List.mem_finRange i)), hperm.countP_eq, Foremost]

/-- Where each match can keep all that is near it, the collection is everything within reach of a leading match. -/
theorem mem_collected (hfrom : 0 ≤ e.fromMatches) (hd : 0 ≤ e.distance) (hcap : 2 * e.distance ≤ e.perMatch)
    (hindex : (chunks.map Chunk.index).Nodup) (hid : (chunks.map Chunk.id).Nodup)
    (hseen : ∀ m ∈ ms, m.chunk.id ∈ seen) {c : Chunk} :
    c ∈ collected e ms chunks seen ↔ Neighbouring e.fromMatches.toNat e.distance.toNat ms chunks seen c := by
  have hall {target x : Chunk} : x ∈ neighboursOf e target chunks seen ↔
    x ∈ chunks ∧ x.id ≠ target.id ∧ x.id ∉ seen ∧
      0 < gap x.index target.index ∧ gap x.index target.index ≤ e.distance := by
    have hlen := length_near target seen hindex hd
    rw [neighboursOf, upTo_eq_take (by omega), List.take_of_length_le (by rw [List.length_mergeSort]; omega),
      List.mem_mergeSort, mem_near]
  rw [collected, mem_foldl_keepChunk, List.mem_flatMap]
  · constructor
    · rintro ⟨m, hm, hc⟩
      obtain ⟨i, hi, rfl⟩ := (mem_leading hfrom).1 hm
      obtain ⟨hstored, -, hnew, hpos, hle⟩ := hall.1 hc
      exact ⟨hstored, hnew, i, hi, hpos, by omega⟩
    · rintro ⟨hstored, hnew, i, hi, hpos, hle⟩
      refine ⟨ms[i], (mem_leading hfrom).2 ⟨i, hi, rfl⟩,
        hall.2 ⟨hstored, fun h => hnew ?_, hnew, hpos, by omega⟩⟩
      exact h ▸ hseen _ (List.getElem_mem _)
  · intro x hx y hy
    obtain ⟨m, -, hx⟩ := List.mem_flatMap.1 hx
    obtain ⟨m', -, hy⟩ := List.mem_flatMap.1 hy
    exact List.inj_on_of_nodup_map hid (hall.1 hx).1 (hall.1 hy).1

/-- The neighbours added for a document are the first of those within reach of its most similar matches, the nearest
to any of its matches first. -/
theorem neighbours_firsts (hfrom : 0 ≤ e.fromMatches) (hd : 0 ≤ e.distance) (hcap : 2 * e.distance ≤ e.perMatch)
    (hmost : 0 ≤ e.perDocument) (hindex : (chunks.map Chunk.index).Nodup) (hid : (chunks.map Chunk.id).Nodup)
    (hseen : ∀ m ∈ ms, m.chunk.id ∈ seen) :
    Firsts e.perDocument.toNat (Neighbouring e.fromMatches.toNat e.distance.toNat ms chunks seen) (Nearer ms)
      (neighbours e ms chunks seen) := by
  let le (c d : Chunk) : Bool := nearerOrEqual (remoteness ms c, c.index) (remoteness ms d, d.index)
  have hle (c d : Chunk) : le c d = true ↔
      remoteness ms c < remoteness ms d ∨ remoteness ms c = remoteness ms d ∧ c.index ≤ d.index := by
    simp [le, nearerOrEqual]
  have hsorted : ((collected e ms chunks seen).mergeSort le).Pairwise fun c d => le c d = true :=
    List.pairwise_mergeSort (fun a b c hab hbc => by rw [hle] at *; omega)
      (fun a b => by rw [Bool.or_eq_true, hle, hle]; omega) _
  have hapart : ((collected e ms chunks seen).mergeSort le).Pairwise fun c d => c.index ≠ d.index := by
    have hnodup : (collected e ms chunks seen).Nodup := nodup_collected.of_map
    refine (((List.mergeSort_perm _ le).nodup_iff.2 hnodup).imp_of_mem fun {c d} hx hy hne h => hne ?_)
    have hstored {x : Chunk} (hx : x ∈ (collected e ms chunks seen).mergeSort le) : x ∈ chunks :=
      ((mem_collected hfrom hd hcap hindex hid hseen).1 (List.mem_mergeSort.1 hx)).stored
    exact List.inj_on_of_nodup_map hindex (hstored hx) (hstored hy) h
  have hstrict : ((collected e ms chunks seen).mergeSort le).Pairwise (Nearer ms) := by
    refine hsorted.imp₂ (fun c d h hne => ?_) hapart
    rw [hle] at h
    exact h.imp_right fun h => ⟨h.1, lt_of_le_of_ne h.2 hne⟩
  have heq : neighbours e ms chunks seen = ((collected e ms chunks seen).mergeSort le).take e.perDocument.toNat := by
    simp only [neighbours, upTo_eq_take hmost, least_eq]
    rfl
  rw [heq]
  exact (firsts_take hstrict _).congr fun c => by
    rw [List.mem_mergeSort, mem_collected hfrom hd hcap hindex hid hseen]

end Compendium.Search
