import Mathlib.Data.List.DropRight
import Compendium.Text.Blank

/-!
Texts without their blanks. Trimming leaves all that is not blank, and what it leaves has no blank at either end.
-/
namespace Compendium.Text

/-- A text without its blanks. -/
def ink (s : List Char) : List Char := s.filter fun c => !isBlank c

/-- A text that is not empty and has no blank at either end. -/
structure Trimmed (s : List Char) : Prop where
  nonempty : s ≠ []
  first : isBlank (s.head nonempty) = false
  last : isBlank (s.getLast nonempty) = false

@[simp] theorem ink_nil : ink [] = [] := rfl

@[simp] theorem ink_append (s t : List Char) : ink (s ++ t) = ink s ++ ink t := List.filter_append ..

theorem ink_eq_nil_iff {s : List Char} : ink s = [] ↔ ∀ c ∈ s, isBlank c = true := by
  simp [ink, List.filter_eq_nil_iff]

theorem allBlank_iff {s : List Char} : allBlank s = true ↔ ink s = [] := by
  rw [ink_eq_nil_iff, allBlank, List.all_eq_true]

theorem Trimmed.ink_ne_nil {s : List Char} (h : Trimmed s) : ink s ≠ [] := fun he => by
  have := ink_eq_nil_iff.1 he _ (List.head_mem h.nonempty)
  rw [h.first] at this
  cases this

/-! Trimming. -/

theorem ink_trimStart (s : List Char) : ink (trimStart s) = ink s := by
  have hblank : ink (s.takeWhile isBlank) = [] := ink_eq_nil_iff.2 fun _ hc => List.mem_takeWhile_imp hc
  calc
    ink (trimStart s) = ink (s.takeWhile isBlank ++ s.dropWhile isBlank) := by rw [ink_append, hblank]; rfl
    _ = ink s := by rw [List.takeWhile_append_dropWhile]

theorem ink_trimEnd (s : List Char) : ink (trimEnd s) = ink s := by
  have hblank : ink (s.rtakeWhile isBlank) = [] := ink_eq_nil_iff.2 fun _ hc => List.mem_rtakeWhile_imp hc
  calc
    ink (trimEnd s) = ink (s.rdropWhile isBlank ++ s.rtakeWhile isBlank) := by
      rw [ink_append, hblank, List.append_nil]
      rfl
    _ = ink s := by rw [List.rdropWhile_append_rtakeWhile]

@[simp] theorem ink_trim (s : List Char) : ink (trim s) = ink s := by rw [trim, ink_trimEnd, ink_trimStart]

theorem trimStart_suffix (s : List Char) : trimStart s <:+ s := List.dropWhile_suffix _

theorem trimEnd_initial (s : List Char) : trimEnd s <+: s := List.rdropWhile_prefix _ s

theorem trimEnd_eq_self {s : List Char} (h : ∀ hs : s ≠ [], isBlank (s.getLast hs) = false) : trimEnd s = s :=
  List.rdropWhile_eq_self_iff.2 fun hs => by simp [h hs]

theorem trimmed_trim {s : List Char} (h : trim s ≠ []) : Trimmed (trim s) where
  nonempty := h
  first := by
    have hp := trimEnd_initial (trimStart s)
    rw [show (trim s).head h = (trimStart s).head (hp.ne_nil h) from hp.head h]
    exact List.head_dropWhile_not isBlank (hp.ne_nil h)
  last := Bool.eq_false_iff.2 (List.rdropWhile_last_not isBlank (trimStart s) h)

theorem trimmed_trim_of_ink {s : List Char} (h : ink s ≠ []) : Trimmed (trim s) :=
  trimmed_trim fun he => h (by rw [← ink_trim, he, ink_nil])

/-- There is nothing to trim twice. -/
theorem Trimmed.trim_eq {s : List Char} (h : Trimmed s) : trim s = s := by
  have hstart : trimStart s = s := List.dropWhile_eq_self_iff.2 fun hl => by
    rw [← List.head_eq_getElem_zero h.nonempty, h.first]
    exact Bool.false_ne_true
  rw [trim, hstart]
  exact trimEnd_eq_self fun _ => h.last

/-- Something is left of the end of a text that does not end with a blank. -/
theorem Trimmed.trim_ne_nil {s u : List Char} (hu : Trimmed u) (h : s <:+ u) (hs : s ≠ []) :
    trim s ≠ [] := fun he => by
  have hink : ink s = [] := by rw [← ink_trim, he, ink_nil]
  have hlast := ink_eq_nil_iff.1 hink _ (List.getLast_mem hs)
  rw [h.getLast hs, hu.last] at hlast
  cases hlast

/-- What trimming leaves of the end of a text is the end of that text, unless the text ends with a blank. -/
theorem Trimmed.trim_suffix {s u : List Char} (hu : Trimmed u) (h : s <:+ u) : trim s <:+ u := by
  have hs : trimStart s <:+ u := (trimStart_suffix s).trans h
  have hl : trimEnd (trimStart s) = trimStart s := trimEnd_eq_self fun hne => by
    rw [hs.getLast hne]
    exact hu.last
  rwa [trim, hl]

theorem length_trim_le (s : List Char) : (trim s).length ≤ s.length :=
  Nat.le_trans (trimEnd_initial _).length_le (trimStart_suffix s).length_le

theorem Trimmed.join {s t : List Char} (hs : Trimmed s) (ht : Trimmed t) (between : List Char) :
    Trimmed (s ++ (between ++ t)) where
  nonempty := by simp [hs.nonempty]
  first := by
    rw [List.head_append_of_ne_nil hs.nonempty]
    exact hs.first
  last := by
    rw [List.getLast_append_of_ne_nil _ (by simp [ht.nonempty]), List.getLast_append_of_ne_nil _ ht.nonempty]
    exact ht.last

/-! Pieces of a text, each trimmed, without those that are blank. -/

/-- Trimming pieces and dropping the blank ones loses blanks alone. -/
theorem ink_trims (ps : List (List Char)) :
    ink ((ps.map trim).filter fun p => !p.isEmpty).flatten = ink ps.flatten := by
  induction ps with
  | nil => rfl
  | cons p ps ih =>
    rw [List.map_cons, List.flatten_cons, ink_append, ← ih, ← ink_trim p]
    cases ht : trim p with
    | nil => simp
    | cons c r => simp [← ink_append]

theorem trimmed_of_mem_trims {ps : List (List Char)} {p : List Char}
    (h : p ∈ (ps.map trim).filter fun p => !p.isEmpty) : Trimmed p := by
  obtain ⟨hp, hne⟩ := List.mem_filter.1 h
  obtain ⟨q, -, rfl⟩ := List.mem_map.1 hp
  exact trimmed_trim (by simpa using hne)

end Compendium.Text
