import Compendium.Files.Path

/-! A path in normal form can be read back from its text, so no two such paths are written alike. -/
namespace Compendium.Path

/-- A name that is kept when a path is read: not empty, not a single dot, and without slashes. -/
def IsName (n : String) : Prop := n ≠ "" ∧ n ≠ "." ∧ '/' ∉ n.toList

instance (n : String) : Decidable (IsName n) := inferInstanceAs (Decidable (_ ∧ _ ∧ _))

/-- The form of every path that is read from a text. -/
structure Normal (p : Path) : Prop where
  slashes : p.slashes ≤ 2
  names : ∀ n ∈ p.names, IsName n

theorem pieces_eq_splitOn (s : List Char) : pieces s = s.splitOn '/' := by
  induction s with
  | nil => rfl
  | cons c r ih =>
    rw [pieces, List.splitOn_cons_eq_if_modifyHead, ih]
    by_cases hc : c = '/'
    · simp [hc]
    · simp only [hc, if_false, beq_iff_eq]
      cases h : r.splitOn '/' with
      | nil => exact absurd h (List.splitOn_ne_nil _ _)
      | cons p ps => rfl

theorem pieces_replicate (k : Nat) (r : List Char) :
    pieces (List.replicate k '/' ++ r) = List.replicate k [] ++ pieces r := by
  induction k with
  | zero => rfl
  | succ k ih =>
    rw [List.replicate_succ, List.cons_append, pieces, if_pos rfl, ih, List.replicate_succ, List.cons_append]

theorem not_slash_of_mem_pieces {s : List Char} : ∀ piece ∈ pieces s, '/' ∉ piece := by
  induction s with
  | nil => simp [pieces]
  | cons c r ih =>
    intro piece hp
    rw [pieces] at hp
    by_cases hc : c = '/'
    · rw [if_pos hc] at hp
      rcases List.mem_cons.1 hp with rfl | hp
      · exact List.not_mem_nil
      · exact ih piece hp
    · rw [if_neg hc] at hp
      cases h : pieces r with
      | nil =>
        rw [h] at hp
        rw [List.mem_singleton.1 hp, List.mem_singleton]
        exact Ne.symm hc
      | cons p ps =>
        rw [h] at hp ih
        rcases List.mem_cons.1 hp with rfl | hp
        · rw [List.mem_cons, not_or]
          exact ⟨Ne.symm hc, ih p List.mem_cons_self⟩
        · exact ih piece (List.mem_cons_of_mem p hp)

theorem isName_iff {n : String} : isName n.toList = true ↔ n ≠ "" ∧ n ≠ "." := by
  have hdot : n.toList = ['.'] ↔ n = "." := by rw [← String.toList_inj]; rfl
  simp [isName, hdot]

/-- Every path that is read is in normal form. -/
theorem ofText_normal (s : String) : (ofText s).Normal where
  slashes := by
    simp only [ofText, leadingSlashes]
    split <;> omega
  names n hn := by
    simp only [ofText, List.mem_map, List.mem_filter] at hn
    obtain ⟨piece, ⟨hp, hname⟩, rfl⟩ := hn
    have := isName_iff.1 (show isName (String.ofList piece).toList = true by rwa [String.toList_ofList])
    exact ⟨this.1, this.2, by rw [String.toList_ofList]; exact not_slash_of_mem_pieces piece hp⟩

/-- The pieces of names written with slashes between them are the names. -/
theorem pieces_intercalate {names : List String} (h : ∀ n ∈ names, IsName n) (hne : names ≠ []) :
    pieces (List.intercalate ['/'] (names.map String.toList)) = names.map String.toList := by
  rw [pieces_eq_splitOn]
  refine List.splitOn_intercalate '/' (fun l hl => ?_) (by simpa using hne)
  obtain ⟨n, hn, rfl⟩ := List.mem_map.1 hl
  exact (h n hn).2.2

theorem filter_names {names : List String} (h : ∀ n ∈ names, IsName n) :
    ((names.map String.toList).filter isName).map String.ofList = names := by
  have hall : (names.map String.toList).filter isName = names.map String.toList :=
    List.filter_eq_self.2 fun l hl => by
      obtain ⟨n, hn, rfl⟩ := List.mem_map.1 hl
      exact isName_iff.2 ⟨(h n hn).1, (h n hn).2.1⟩
  rw [hall, List.map_map]
  exact (List.map_congr_left fun n _ => String.ofList_toList).trans (List.map_id _)

/-- No name begins with a slash. -/
theorem takeWhile_intercalate {names : List String} (h : ∀ n ∈ names, IsName n) :
    (List.intercalate ['/'] (names.map String.toList)).takeWhile (· = '/') = [] := by
  cases names with
  | nil => rfl
  | cons n rest =>
    obtain ⟨hne, -, hslash⟩ := h n List.mem_cons_self
    cases hc : n.toList with
    | nil => exact absurd (String.toList_eq_nil_iff.1 hc) hne
    | cons c cs =>
      have : c ≠ '/' := fun he => hslash (by rw [hc, he]; exact List.mem_cons_self)
      rw [List.map_cons, hc]
      cases rest <;> simp [List.intercalate, this]

theorem leadingSlashes_replicate {k : Nat} (hk : k ≤ 2) {r : List Char} (hr : r.takeWhile (· = '/') = []) :
    leadingSlashes (List.replicate k '/' ++ r) = k := by
  have : (List.replicate k '/' ++ r).takeWhile (· = '/') = List.replicate k '/' := by
    rw [List.takeWhile_append_of_pos (by simp), hr, List.append_nil]
  rw [leadingSlashes, this, List.length_replicate]
  match k, hk with
  | 0, _ => rfl
  | 1, _ => rfl
  | 2, _ => rfl

/-- A path in normal form is read back from its text. -/
theorem ofText_text {p : Path} (h : p.Normal) : ofText p.text = p := by
  obtain ⟨k, names⟩ := p
  by_cases hdot : names = [] ∧ k = 0
  · obtain ⟨rfl, rfl⟩ := hdot
    rfl
  have htext : (text ⟨k, names⟩).toList =
      List.replicate k '/' ++ List.intercalate ['/'] (names.map String.toList) := by
    simp only [text]
    rw [if_neg (by simpa using hdot)]
    simp
  simp only [ofText, htext, leadingSlashes_replicate h.slashes (takeWhile_intercalate h.names), pieces_replicate,
    List.filter_append, Path.mk.injEq, true_and]
  have hempty : (List.replicate k ([] : List Char)).filter isName = [] := by
    rw [List.filter_eq_nil_iff]
    intro piece hp
    rw [List.eq_of_mem_replicate hp]
    decide
  rw [hempty, List.nil_append]
  by_cases hne : names = []
  · subst hne
    rfl
  · rw [pieces_intercalate h.names hne, filter_names h.names]

/-- Different paths in normal form are written differently. -/
theorem text_inj {p q : Path} (hp : p.Normal) (hq : q.Normal) (h : p.text = q.text) : p = q := by
  rw [← ofText_text hp, ← ofText_text hq, h]

/-- A stem has no other characters than its name. -/
theorem mem_of_mem_stemOf {n : String} {c : Char} (h : c ∈ (stemOf n).toList) : c ∈ n.toList := by
  rw [stemOf] at h
  split at h
  next d c' before hdrop =>
    split at h
    · exact h
    · have hmem : c ∈ n.toList.reverse := by
        refine List.mem_of_mem_drop (i := (n.toList.reverse.takeWhile (· != '.')).length) ?_
        rw [hdrop]
        exact List.mem_cons_of_mem _ (by simpa [or_comm] using h)
      exact List.mem_reverse.1 hmem
  · exact h
end Compendium.Path
