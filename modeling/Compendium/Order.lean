/-! Ordered lists: cutting them short, and sorting texts. -/
namespace Compendium

/-- The first `n` items; a negative `n` leaves that many out at the end. -/
def upTo {α : Type} (n : Int) (xs : List α) : List α :=
  if 0 ≤ n then xs.take n.toNat else xs.take (xs.length - n.natAbs)

theorem upTo_eq_take {α : Type} {n : Int} (h : 0 ≤ n) (xs : List α) : upTo n xs = xs.take n.toNat := if_pos h

theorem upTo_sublist {α : Type} (n : Int) (xs : List α) : (upTo n xs).Sublist xs := by
  unfold upTo
  split <;> exact List.take_sublist _ _

/-- Of the first `n` items the first `m` are the first `m` of all. -/
theorem upTo_upTo {α : Type} {m n : Int} (hm : 0 ≤ m) (hmn : m ≤ n) (xs : List α) :
    upTo m xs = (upTo n xs).take m.toNat := by
  rw [upTo_eq_take hm, upTo_eq_take (Int.le_trans hm hmn), List.take_take, Nat.min_eq_left (Int.toNat_le_toNat hmn)]

theorem upTo_map {α β : Type} (n : Int) (f : α → β) (xs : List α) : (upTo n xs).map f = upTo n (xs.map f) := by
  unfold upTo
  split <;> simp

/-- Sorts by a text, in the order of code points; equals keep their order. -/
def sortByText {α : Type} (key : α → String) (xs : List α) : List α :=
  xs.mergeSort fun a b => !(key b < key a)

def sortByTexts {α : Type} (key key' : α → String) (xs : List α) : List α :=
  xs.mergeSort fun a b => key a < key b || (key a = key b && !(key' b < key' a))

def distinctTexts (xs : List String) : List String :=
  xs.foldl (fun kept x => if kept.contains x then kept else kept ++ [x]) []

/-- Going on from items that were kept, each of the rest is kept once. -/
theorem foldl_distinct (xs : List String) {kept : List String} (hk : kept.Nodup) :
    let all := xs.foldl (fun kept x => if kept.contains x then kept else kept ++ [x]) kept
    all.Nodup ∧ ∀ x, x ∈ all ↔ x ∈ kept ∨ x ∈ xs := by
  induction xs generalizing kept with
  | nil => simp [hk]
  | cons y ys ih =>
    rw [List.foldl_cons]
    by_cases hy : kept.contains y = true
    · have hm : y ∈ kept := by simpa using hy
      rw [if_pos hy]
      refine ⟨(ih hk).1, fun x => ((ih hk).2 x).trans ?_⟩
      rw [List.mem_cons]
      exact ⟨Or.imp_right .inr, fun h => h.elim .inl fun h => h.elim (fun h => .inl (h ▸ hm)) .inr⟩
    · have hm : y ∉ kept := by simpa using hy
      have hn : (kept ++ [y]).Nodup :=
        List.nodup_append.2 ⟨hk, by simp, fun a ha b hb he => hm (List.mem_singleton.1 hb ▸ he ▸ ha)⟩
      rw [if_neg hy]
      refine ⟨(ih hn).1, fun x => ((ih hn).2 x).trans ?_⟩
      rw [List.mem_append, List.mem_singleton, List.mem_cons, or_assoc]

theorem nodup_distinctTexts (xs : List String) : (distinctTexts xs).Nodup := (foldl_distinct xs List.nodup_nil).1

theorem mem_distinctTexts {x : String} {xs : List String} : x ∈ distinctTexts xs ↔ x ∈ xs := by
  rw [distinctTexts, (foldl_distinct xs List.nodup_nil).2]
  simp

end Compendium
