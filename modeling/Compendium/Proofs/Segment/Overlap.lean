import Compendium.Proofs.Segment.Sizes

/-!
How units go on from one another. A unit opens with the end of the one before it: with all of it if that is short
enough, else with what fits, from the first sentence that begins there if one does. Without an overlap the units tell
the sentences once.
-/
namespace Compendium.Segment

open Compendium.Text

/-! Sentence ends. -/

/-- A sentence end inside a text: some stops, all the blanks behind them, and what stands before and after. -/
structure SentenceEnd (s : List Char) where
  before : List Char
  stops : List Char
  gap : List Char
  after : List Char
  whole : before ++ (stops ++ (gap ++ after)) = s
  stops_ne : stops ≠ []
  isStop_stops : ∀ c ∈ stops, isStop c = true
  gap_ne : gap ≠ []
  isBlank_gap : ∀ c ∈ gap, isBlank c = true
  isBlank_after : ∀ c ∈ after.head?, isBlank c = false

namespace SentenceEnd

variable {c : Char} {r s : List Char}

def IsFirst (m : SentenceEnd s) : Prop := ∀ n : SentenceEnd s, m.before.length ≤ n.before.length

def behind (c : Char) (m : SentenceEnd r) : SentenceEnd (c :: r) :=
  { m with before := c :: m.before, whole := by rw [List.cons_append, m.whole] }

def widen (m : SentenceEnd r) (hm : m.before = []) (hc : isStop c = true) : SentenceEnd (c :: r) where
  before := []
  stops := c :: m.stops
  gap := m.gap
  after := m.after
  whole := by
    have := m.whole
    rw [hm, List.nil_append] at this
    rw [List.nil_append, List.cons_append, this]
  stops_ne := List.cons_ne_nil _ _
  isStop_stops := List.forall_mem_cons.2 ⟨hc, m.isStop_stops⟩
  gap_ne := m.gap_ne
  isBlank_gap := m.isBlank_gap
  isBlank_after := m.isBlank_after

def single (hc : isStop c = true) (hr : r.head?.any isBlank = true) : SentenceEnd (c :: r) where
  before := []
  stops := [c]
  gap := r.takeWhile isBlank
  after := r.dropWhile isBlank
  whole := by simp
  stops_ne := List.cons_ne_nil _ _
  isStop_stops := by simpa using hc
  gap_ne := by
    cases r with
    | nil => simp at hr
    | cons d r =>
      have hd : isBlank d = true := by simpa using hr
      simp [hd]
  isBlank_gap _ := List.mem_takeWhile_imp
  isBlank_after d hd := by
    have := List.head?_dropWhile_not isBlank r
    rw [Option.mem_def.1 hd] at this
    simpa using this

/-- Behind the first character of a text a sentence end is one of the rest, or that character is a stop that blanks or
more stops follow. -/
theorem cases_cons (m : SentenceEnd (c :: r)) :
    (∃ n : SentenceEnd r, m.before = c :: n.before) ∨
      isStop c = true ∧ (r.head?.any isBlank = true ∨ ∃ n : SentenceEnd r, n.before = []) := by
  obtain ⟨before, stops, gap, after, whole, stops_ne, isStop_stops, gap_ne, isBlank_gap, isBlank_after⟩ := m
  cases before with
  | cons d before =>
    obtain ⟨rfl, hrest⟩ := List.cons.inj whole
    exact .inl ⟨⟨before, stops, gap, after, hrest, stops_ne, isStop_stops, gap_ne, isBlank_gap, isBlank_after⟩,
      rfl⟩
  | nil =>
    obtain ⟨d, stops, rfl⟩ := List.exists_cons_of_ne_nil stops_ne
    obtain ⟨rfl, hrest⟩ := List.cons.inj whole
    obtain ⟨hd, hstops⟩ := List.forall_mem_cons.1 isStop_stops
    refine .inr ⟨hd, ?_⟩
    cases stops with
    | nil =>
      obtain ⟨b, gap, rfl⟩ := List.exists_cons_of_ne_nil gap_ne
      refine .inl ?_
      rw [← hrest]
      simpa using isBlank_gap b List.mem_cons_self
    | cons e stops =>
      exact .inr ⟨⟨[], e :: stops, gap, after, hrest, List.cons_ne_nil _ _, hstops, gap_ne, isBlank_gap,
        isBlank_after⟩, rfl⟩

/-- A text that does not end with a blank goes on behind a sentence end. -/
theorem after_ne (m : SentenceEnd s) (hs : s ≠ []) (hlast : isBlank (s.getLast hs) = false) :
    m.after ≠ [] := fun he => by
  have hgap : m.gap <:+ s := by
    refine ⟨m.before ++ m.stops, ?_⟩
    have hwhole := m.whole
    rwa [he, List.append_nil, ← List.append_assoc] at hwhole
  have hblank := m.isBlank_gap _ (List.getLast_mem m.gap_ne)
  rw [hgap.getLast m.gap_ne, hlast] at hblank
  cases hblank

theorem after_suffix (m : SentenceEnd s) : m.after <:+ s := by
  refine ⟨m.before ++ (m.stops ++ m.gap), ?_⟩
  rw [List.append_assoc, List.append_assoc, m.whole]

end SentenceEnd

/-- The search for a sentence end stops behind the first one. -/
theorem sentenceEnd?_eq_some {s : List Char} {n k : Nat} (h : sentenceEnd? n s = some k) :
    ∃ m : SentenceEnd s, m.IsFirst ∧ m.after = s.drop (k - n) := by
  induction s generalizing n with
  | nil => simp [sentenceEnd?] at h
  | cons c r ih =>
    rw [sentenceEnd?] at h
    split at h
    next hend =>
      rw [Bool.and_eq_true] at hend
      obtain rfl : n + 1 + (r.takeWhile isBlank).length = k := by simpa using h
      refine ⟨.single hend.1 hend.2, fun _ => Nat.zero_le _, ?_⟩
      rw [show n + 1 + (r.takeWhile isBlank).length - n = (r.takeWhile isBlank).length + 1 by omega,
        List.drop_succ_cons]
      conv_rhs => arg 2; rw [← List.takeWhile_append_dropWhile (p := isBlank) (l := r)]
      exact List.drop_left.symm
    next hend =>
      obtain ⟨m, hfirst, hafter⟩ := ih h
      have hdrop : (c :: r).drop (k - n) = r.drop (k - (n + 1)) := by
        rw [show k - n = k - (n + 1) + 1 by have := (sentenceEnd?_bounds h).1; omega, List.drop_succ_cons]
      rw [hdrop, ← hafter]
      -- A stop right before the stops of the rest belongs to the same sentence end.
      by_cases hc : isStop c = true ∧ m.before = []
      · exact ⟨m.widen hc.2 hc.1, fun _ => Nat.zero_le _, rfl⟩
      · refine ⟨m.behind c, fun m' => ?_, rfl⟩
        rcases m'.cases_cons with ⟨n', hn'⟩ | ⟨hstop, hblank | ⟨n', hn'⟩⟩
        · rw [hn']
          exact Nat.succ_le_succ (hfirst n')
        · simp [hstop, hblank] at hend
        · have hle := hfirst n'
          rw [hn', List.length_nil, Nat.le_zero] at hle
          exact absurd ⟨hstop, List.eq_nil_of_length_eq_zero hle⟩ hc

/-- Where no sentence end is found, there is none. -/
theorem sentenceEnd?_eq_none {s : List Char} {n : Nat} (h : sentenceEnd? n s = none) : IsEmpty (SentenceEnd s) := by
  induction s generalizing n with
  | nil => exact ⟨fun m => m.stops_ne (by simpa using And.left (List.append_eq_nil_iff.1
      (List.append_eq_nil_iff.1 m.whole).2))⟩
  | cons c r ih =>
    rw [sentenceEnd?] at h
    split at h
    · cases h
    next hend =>
      refine ⟨fun m => ?_⟩
      rcases m.cases_cons with ⟨n', -⟩ | ⟨hstop, hblank | ⟨n', -⟩⟩
      · exact (ih h).false n'
      · simp [hstop, hblank] at hend
      · exact (ih h).false n'

/-! What a unit opens with. -/

/-- What the unit behind `u` repeats of it: all of a short unit, and of a longer one the last characters, from the first
sentence that begins among them if one does. -/
structure Carries (b : Budget) (u o : List Char) : Prop where
  nonempty : o ≠ []
  bounded : o.length ≤ 4 * b.overlap
  ends : o <:+ u
  short : u.length ≤ 4 * b.overlap → o = u
  long : 4 * b.overlap < u.length →
    (∃ m : SentenceEnd (u.rtake (4 * b.overlap)), m.IsFirst ∧ o = trim m.after) ∨
      IsEmpty (SentenceEnd (u.rtake (4 * b.overlap))) ∧ o = trim (u.rtake (4 * b.overlap))

/-- A unit within the overlap is repeated as a whole. -/
theorem overlapOf_short {b : Budget} {u : List Char} (hpos : 0 < b.overlap) (hu : Trimmed u)
    (hle : u.length ≤ 4 * b.overlap) : overlapOf b u = u := by
  have hsome : ¬(b.overlap = 0 || u.isEmpty) = true := by
    simpa [hu.nonempty] using Nat.ne_of_gt hpos
  have hcount : u.length ≤ b.overlap * charsPerToken := by rwa [charsPerToken, Nat.mul_comm]
  rw [overlapOf, if_neg hsome]
  simp only [if_pos hcount]
  exact hu.trim_eq

theorem overlapOf_long {b : Budget} {u : List Char} (hpos : 0 < b.overlap) (hlt : 4 * b.overlap < u.length) :
    overlapOf b u =
      match sentenceEnd? 0 (u.rtake (4 * b.overlap)) with
      | some k =>
        if k < (u.rtake (4 * b.overlap)).length then trim ((u.rtake (4 * b.overlap)).drop k)
        else trim (u.rtake (4 * b.overlap))
      | none => trim (u.rtake (4 * b.overlap)) := by
  have hu : u ≠ [] := List.ne_nil_of_length_pos (by omega)
  have hsome : ¬(b.overlap = 0 || u.isEmpty) = true := by
    simpa [hu] using Nat.ne_of_gt hpos
  have hcount : b.overlap * charsPerToken = 4 * b.overlap := Nat.mul_comm _ 4
  rw [overlapOf, if_neg hsome]
  simp only [hcount, if_neg (Nat.not_le.2 hlt)]
  rfl

/-- The overlap that is computed is the one that is declared. -/
theorem overlapOf_carries {b : Budget} {u : List Char} (hpos : 0 < b.overlap) (hu : Trimmed u) :
    Carries b u (overlapOf b u) := by
  obtain ⟨hends, hbounded, -⟩ := overlapOf_spec b hu
  by_cases hle : u.length ≤ 4 * b.overlap
  · have hall := overlapOf_short hpos hu hle
    exact ⟨hall.symm ▸ hu.nonempty, hbounded, hends, fun _ => hall, fun hlt => absurd hle (Nat.not_le.2 hlt)⟩
  have hlt : 4 * b.overlap < u.length := Nat.not_le.1 hle
  have htail : u.rtake (4 * b.overlap) <:+ u := List.drop_suffix _ u
  have hne : u.rtake (4 * b.overlap) ≠ [] := List.ne_nil_of_length_pos (by rw [List.rtake, List.length_drop]; omega)
  have hlast : isBlank ((u.rtake (4 * b.overlap)).getLast hne) = false := by
    rw [htail.getLast hne]
    exact hu.last
  have hlong := overlapOf_long hpos hlt
  cases hend : sentenceEnd? 0 (u.rtake (4 * b.overlap)) with
  | none =>
    rw [hend] at hlong
    refine ⟨?_, hbounded, hends, fun h => absurd h hle, fun _ => .inr ⟨sentenceEnd?_eq_none hend, hlong⟩⟩
    rw [hlong]
    exact hu.trim_ne_nil htail hne
  | some k =>
    obtain ⟨m, hfirst, hafter⟩ := sentenceEnd?_eq_some hend
    have hm : m.after ≠ [] := m.after_ne hne hlast
    rw [Nat.sub_zero] at hafter
    have hk : k < (u.rtake (4 * b.overlap)).length := by
      rw [hafter] at hm
      simpa using hm
    rw [hend] at hlong
    simp only [if_pos hk, ← hafter] at hlong
    refine ⟨?_, hbounded, hends, fun h => absurd h hle, fun _ => .inl ⟨m, hfirst, hlong⟩⟩
    rw [hlong]
    exact hu.trim_ne_nil (m.after_suffix.trans htail) hm

/-! Sentences joined by single spaces. -/

theorem foldl_joined {o : List Char} (ho : o ≠ []) (ss : List (List Char)) :
    ss.foldl joined o = [' '].intercalate (o :: ss) := by
  induction ss generalizing o with
  | nil => rw [List.foldl_nil, List.intercalate_singleton]
  | cons s ss ih =>
    have hjoined : joined o s = o ++ ' ' :: s := by simp [joined, ho]
    rw [List.foldl_cons, hjoined, ih (by simp), List.intercalate_cons_cons]
    cases ss with
    | nil => simp
    | cons s' ss => simp [List.intercalate_cons_cons]

theorem intercalate_append_of_ne {α : Type} (mark : List α) {ys zs : List (List α)} (hy : ys ≠ [])
    (hz : zs ≠ []) :
    mark.intercalate (ys ++ zs) = mark.intercalate ys ++ mark ++ mark.intercalate zs := by
  induction ys with
  | nil => exact absurd rfl hy
  | cons y ys ih =>
    cases ys with
    | nil =>
      obtain ⟨z, zs, rfl⟩ := List.exists_cons_of_ne_nil hz
      rw [List.singleton_append, List.intercalate_cons_cons, List.intercalate_singleton]
    | cons y' ys =>
      have hrest := ih (List.cons_ne_nil _ _)
      rw [List.cons_append] at hrest
      rw [List.cons_append, List.cons_append, List.intercalate_cons_cons, hrest, List.intercalate_cons_cons]
      simp only [List.append_assoc]

/-- Joining groups whose members are already joined is joining all members. -/
theorem intercalate_map {α β : Type} (mark : List α) (f : β → List (List α)) {xs : List β}
    (hf : ∀ x ∈ xs, f x ≠ []) :
    mark.intercalate (xs.map fun x => mark.intercalate (f x)) = mark.intercalate (xs.flatMap f) := by
  induction xs with
  | nil => rfl
  | cons x xs ih =>
    obtain ⟨hx, hxs⟩ := List.forall_mem_cons.1 hf
    cases xs with
    | nil => simp
    | cons x' xs =>
      have hrest : (x' :: xs).flatMap f ≠ [] := by simp [(List.forall_mem_cons.1 hxs).1]
      have ih := ih hxs
      rw [List.map_cons] at ih
      rw [List.map_cons, List.map_cons, List.intercalate_cons_cons, ih, List.flatMap_cons (x := x),
        intercalate_append_of_ne mark hx hrest]

/-! Units. -/

namespace Packed

theorem text_opened {u : Packed} (h : u.opening ≠ []) :
    u.text = u.opening ++ ' ' :: [' '].intercalate u.sentences := by
  rw [text, foldl_joined h, sentences, List.intercalate_cons_cons, List.append_assoc]
  rfl

theorem text_plain {u : Packed} (h : u.opening = []) (hfirst : u.first ≠ []) :
    u.text = [' '].intercalate u.sentences := by
  rw [text, h, sentences, List.foldl_cons, show joined [] u.first = u.first from rfl, foldl_joined hfirst]

/-- A unit goes on from another: it repeats the end of that one, and behind a space its own sentences follow. -/
structure GoesOn (b : Budget) (u v : Packed) : Prop where
  carries : Carries b u.text (overlapOf b u.text)
  text : v.text = overlapOf b u.text ++ ' ' :: [' '].intercalate v.sentences

end Packed

/-- Without an overlap no unit opens with anything. -/
theorem Packing.opening_eq_nil {b : Budget} {ss : List (List Char)} {us : List Packed} (h : Packing b [] ss us)
    (hzero : b.overlap = 0) : ∀ u ∈ us, u.opening = [] := by
  have hchain := h.follows
  have hfirst : ∀ u ∈ us.head?, u.opening = [] := h.opening
  clear h
  induction us with
  | nil => exact nofun
  | cons u us ih =>
    obtain ⟨hnext, hchain⟩ := List.isChain_cons.1 hchain
    refine List.forall_mem_cons.2 ⟨hfirst u rfl, ih hchain fun v hv => ?_⟩
    rw [(hnext v hv).opening]
    simp [overlapOf, hzero]

/-- With an overlap each unit goes on from the one before it: it repeats the end of that unit, and then the next
sentences follow whole. Without an overlap the units, told one after the other, are the sentences. -/
theorem units_go_on (b : Budget) (p : List Char) :
    (0 < b.overlap → ∃ us : List Packed, units b p = us.map Packed.text ∧
      us.flatMap Packed.sentences = sentences p ∧ us.IsChain (Packed.GoesOn b)) ∧
    (b.overlap = 0 → [' '].intercalate (units b p) = [' '].intercalate (sentences p)) := by
  obtain ⟨us, hunits, hus⟩ := units_packing b p
  have htrimmed : ∀ u ∈ us, Trimmed u.text := fun u hu =>
    (units_lossless b p).trimmed _ (hunits ▸ List.mem_map_of_mem hu)
  refine ⟨fun hpos => ⟨us, hunits, hus.sentences, hus.follows.imp_of_mem_imp fun u v hu _ hv => ?_⟩,
    fun hzero => ?_⟩
  · have hcarries := overlapOf_carries hpos (htrimmed u hu)
    refine ⟨hcarries, ?_⟩
    rw [← hv.opening]
    exact Packed.text_opened (hv.opening ▸ hcarries.nonempty)
  · have hplain : ∀ u ∈ us, u.text = [' '].intercalate u.sentences := fun u hu => by
      have hfirst : u.first ∈ sentences p := hus.sentences ▸ List.mem_flatMap.2 ⟨u, hu, List.mem_cons_self⟩
      exact Packed.text_plain (hus.opening_eq_nil hzero u hu) (trimmed_of_mem_trims hfirst).nonempty
    have hsome : ∀ u ∈ us, u.sentences ≠ [] := fun u _ => List.cons_ne_nil u.first u.more
    rw [hunits, List.map_congr_left hplain, intercalate_map [' '] Packed.sentences hsome, hus.sentences]

/-- The second unit opens with the sentence that begins in the last eight characters of the first; with no overlap it
opens with its own. -/
theorem units_go_on_asked :
    let b : Budget := ⟨4, 2, by decide⟩
    let c : Budget := ⟨4, 0, by decide⟩
    let p := "Is it. So? No. Five six seven eight nine.".toList
    0 < b.overlap ∧ units b p = ["Is it. So? No.".toList, "No. Five six seven eight nine.".toList] ∧
      (∃ us : List Packed, units b p = us.map Packed.text ∧ us.flatMap Packed.sentences = sentences p ∧
        us.IsChain (Packed.GoesOn b)) ∧
      c.overlap = 0 ∧ [' '].intercalate (units c p) = [' '].intercalate (sentences p) := by
  intro b c p
  exact ⟨by decide, by decide +kernel, (units_go_on b p).1 (by decide), rfl, (units_go_on c p).2 rfl⟩

end Compendium.Segment
