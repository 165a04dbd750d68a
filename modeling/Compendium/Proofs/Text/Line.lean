import Mathlib.Data.List.DropRight
import Compendium.Text.Line

/-!
Lines of a text. No line is empty, and behind a line end the lines of what follows are told apart from those before. A
text without line ends is a line by itself.
-/
namespace Compendium.Text

theorem addToLines_eq_cons (c : Char) (ls : List (List Char)) : ∃ l ls', addToLines c ls = (c :: l) :: ls' := by
  cases ls with
  | nil => exact ⟨[], [], rfl⟩
  | cons l ls =>
    rw [addToLines]
    split
    · exact ⟨l, ls, rfl⟩
    · split
      · exact ⟨[], l :: ls, rfl⟩
      · exact ⟨l, ls, rfl⟩

theorem lines_cons (c : Char) (s : List Char) : lines (c :: s) = addToLines c (lines s) := rfl

theorem lines_ne_nil {s : List Char} (h : s ≠ []) : lines s ≠ [] := by
  obtain ⟨c, s, rfl⟩ := List.exists_cons_of_ne_nil h
  obtain ⟨l, ls, hls⟩ := addToLines_eq_cons c (lines s)
  rw [lines_cons, hls]
  exact List.cons_ne_nil _ _

/-- The first line begins as the text does. -/
theorem head?_lines (s : List Char) : (lines s).head?.bind List.head? = s.head? := by
  cases s with
  | nil => rfl
  | cons c s =>
    obtain ⟨l, ls, hls⟩ := addToLines_eq_cons c (lines s)
    rw [lines_cons, hls]
    rfl

theorem nil_not_mem_addToLines {c : Char} {ls : List (List Char)} (h : [] ∉ ls) : [] ∉ addToLines c ls := by
  cases ls with
  | nil => simp [addToLines]
  | cons l ls =>
    have hls : [] ∉ ls := fun hm => h (List.mem_cons_of_mem l hm)
    rw [addToLines]
    split
    · simp [hls]
    · split
      · simpa using h
      · simp [hls]

/-- No line is empty. -/
theorem nil_not_mem_lines (s : List Char) : [] ∉ lines s := by
  induction s with
  | nil => exact List.not_mem_nil
  | cons c s ih => exact nil_not_mem_addToLines ih

/-- Only the first line changes when a character comes before it. -/
theorem addToLines_append (c : Char) {ls : List (List Char)} (ms : List (List Char)) (h : ls ≠ []) :
    addToLines c (ls ++ ms) = addToLines c ls ++ ms := by
  obtain ⟨l, ls, rfl⟩ := List.exists_cons_of_ne_nil h
  rw [List.cons_append, addToLines, addToLines]
  split
  · rfl
  · split <;> rfl

/-- A line end that is not the first half of a longer one stands alone. -/
theorem lines_cons_of_isLineEnd {c : Char} {s : List Char} (hc : isLineEnd c = true) (hs : s.head? ≠ some '\n') :
    lines (c :: s) = [c] :: lines s := by
  have hhead := head?_lines s
  rw [lines_cons]
  cases hl : lines s with
  | nil => rfl
  | cons l ls =>
    rw [hl] at hhead
    have hnot : ¬(decide (c = '\r') && decide (l.head? = some '\n')) = true := by
      rw [show l.head? = s.head? from hhead]
      simp [hs]
    rw [addToLines, if_neg hnot, if_pos hc]

/-- The lines of two texts, the first of which is empty or ends a line that the second does not go on with. -/
theorem lines_append {s t : List Char} (hs : ∀ c ∈ s.getLast?, isLineEnd c = true) (ht : t.head? ≠ some '\n') :
    lines (s ++ t) = lines s ++ lines t := by
  induction s with
  | nil => rfl
  | cons c s ih =>
    cases s with
    | nil => rw [List.singleton_append, lines_cons_of_isLineEnd (hs c rfl) ht]; rfl
    | cons d s =>
      have hrest := ih fun e he => hs e (by rwa [List.getLast?_cons_cons])
      rw [List.cons_append, lines_cons, hrest, addToLines_append c _ (lines_ne_nil (List.cons_ne_nil d s)),
        ← lines_cons]

/-! Texts on one line. -/

/-- A text is one line if no character of it ends a line. -/
theorem isOneLine_iff {s : List Char} : isOneLine s = true ↔ ∀ c ∈ s, isLineEnd c = false := by simp [isOneLine]

@[simp] theorem isOneLine_nil : isOneLine [] = true := rfl

@[simp] theorem isOneLine_cons (c : Char) (s : List Char) :
    isOneLine (c :: s) = (!isLineEnd c && isOneLine s) := by simp [isOneLine]

@[simp] theorem isOneLine_append (s t : List Char) : isOneLine (s ++ t) = (isOneLine s && isOneLine t) := by
  simp [isOneLine]

theorem isOneLine_flatMap {α : Type} (xs : List α) (f : α → List Char) :
    isOneLine (xs.flatMap f) = xs.all fun x => isOneLine (f x) := by
  induction xs with
  | nil => rfl
  | cons x xs ih => rw [List.flatMap_cons, isOneLine_append, ih, List.all_cons]

theorem lines_of_isOneLine {s : List Char} (h : isOneLine s = true) (hne : s ≠ []) : lines s = [s] := by
  induction s with
  | nil => exact absurd rfl hne
  | cons c s ih =>
    rw [isOneLine_cons, Bool.and_eq_true, Bool.not_eq_true'] at h
    cases s with
    | nil => rfl
    | cons d s =>
      have hc : c ≠ '\r' := by
        rintro rfl
        cases h.1
      rw [lines_cons, ih h.2 (List.cons_ne_nil d s), addToLines]
      simp [hc, h.1]

def bareLines (s : List Char) : List (List Char) := (lines s).map (List.rdropWhile isLineEnd)

/-- Behind a line end the last line of a text is what follows, if that stands on one line. -/
theorem getLast?_bareLines {s t : List Char} (hs : ∀ c ∈ s.getLast?, isLineEnd c = true) (ht : isOneLine t = true)
    (hne : t ≠ []) : (bareLines (s ++ t)).getLast? = some t := by
  have hends : ∀ c ∈ t, isLineEnd c = false := isOneLine_iff.1 ht
  have hhead : t.head? ≠ some '\n' := by
    intro h
    cases hends '\n' (List.mem_of_head? h)
  have hkept : t.rdropWhile isLineEnd = t := by
    rw [List.rdropWhile_eq_self_iff]
    intro h
    rw [hends _ (List.getLast_mem h)]
    exact Bool.false_ne_true
  rw [bareLines, lines_append hs hhead, lines_of_isOneLine ht hne, List.map_append, List.map_singleton, hkept,
    List.getLast?_concat]

end Compendium.Text
