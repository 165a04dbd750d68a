import Mathlib.Algebra.Group.Nat.Even
import Compendium.Proofs.Segment.Lossless
import Compendium.Proofs.Text.Line

/-!
Sections stand apart. Where no fence is open a heading begins a new section, whatever stands before it, so texts that
are put together at headings are cut into chunks one by one.
-/
namespace Compendium.Segment

open Compendium.Text

/-! Headings and fences. -/

/-- A heading begins with a number sign. -/
theorem head?_of_isHeading {l : List Char} (h : isHeading l = true) : l.head? = some '#' := by
  cases l with
  | nil => simp [isHeading] at h
  | cons c l =>
    by_cases hc : c = '#'
    · rw [hc, List.head?_cons]
    · simp [isHeading, hc] at h

/-- No line is both a heading and a fence. -/
theorem isFence_of_isHeading {l : List Char} (h : isHeading l = true) : isFence l = false := by
  cases l with
  | nil => simp [isHeading] at h
  | cons c l =>
    obtain rfl : c = '#' := by simpa using head?_of_isHeading h
    have htrim : trimStart ('#' :: l) = '#' :: l := List.dropWhile_cons_of_neg (by decide)
    rw [isFence, htrim]
    rfl

/-! Cutting lines. -/

theorem pushLine_ne_nil (l : List Char) (ps : List (List Char)) : pushLine l ps ≠ [] := by
  cases ps <;> simp [pushLine]

theorem pushLine_append (l : List Char) {ps : List (List Char)} (qs : List (List Char)) (h : ps ≠ []) :
    pushLine l (ps ++ qs) = pushLine l ps ++ qs := by
  obtain ⟨p, ps, rfl⟩ := List.exists_cons_of_ne_nil h
  rfl

theorem cutAtHeadings_ne_nil (fenced : Bool) (ls : List (List Char)) : cutAtHeadings fenced ls ≠ [] := by
  fun_induction cutAtHeadings fenced ls with
  | case1 => exact List.cons_ne_nil _ _
  | case2 fenced l ls hfence ih => exact pushLine_ne_nil _ _
  | case3 fenced l ls hfence hhead ih => exact List.cons_ne_nil _ _
  | case4 fenced l ls hfence hhead ih => exact pushLine_ne_nil _ _

/-- A line in front of the others: a fence turns the state over, a heading outside begins a piece. -/
theorem cutAtHeadings_cons (fenced : Bool) (l : List Char) (ls : List (List Char)) :
    cutAtHeadings fenced (l :: ls) =
      (if fenced = false ∧ isHeading l = true then [[]] else []) ++
        pushLine l (cutAtHeadings (fenced ^^ isFence l) ls) := by
  rw [cutAtHeadings]
  cases hfence : isFence l with
  | true =>
    have hhead : isHeading l = false := Bool.eq_false_iff.2 fun h => by simp [isFence_of_isHeading h] at hfence
    simp [hhead]
  | false => cases fenced <;> cases isHeading l <;> simp

/-- A fence in front of other lines counts as one that was open before them. -/
theorem even_countP_cons (fenced : Bool) (l : List Char) (ls : List (List Char)) :
    Even ((l :: ls).countP isFence + fenced.toNat) ↔ Even (ls.countP isFence + (fenced ^^ isFence l).toNat) := by
  rw [List.countP_cons, Nat.even_iff, Nat.even_iff]
  cases fenced <;> cases isFence l <;> simp
  omega

/-- A heading behind lines that leave no fence open begins a piece of its own. -/
theorem cutAtHeadings_append {fenced : Bool} {ls : List (List Char)} {h : List Char} (ms : List (List Char))
    (hh : isHeading h = true) (heven : Even (ls.countP isFence + fenced.toNat)) :
    cutAtHeadings fenced (ls ++ h :: ms) = cutAtHeadings fenced ls ++ (cutAtHeadings false (h :: ms)).tail := by
  induction ls generalizing fenced with
  | nil =>
    obtain rfl : fenced = false := by cases fenced <;> simp_all
    rw [List.nil_append, cutAtHeadings_cons, if_pos ⟨rfl, hh⟩]
    rfl
  | cons l ls ih =>
    have hrest := ih ((even_countP_cons fenced l ls).1 heven)
    rw [List.cons_append, cutAtHeadings_cons, hrest, pushLine_append l _ (cutAtHeadings_ne_nil _ _),
      ← List.append_assoc, ← cutAtHeadings_cons]

/-! Sections and chunks. -/

def trims (ps : List (List Char)) : List (List Char) := (ps.map trim).filter fun p => !p.isEmpty

theorem trims_append (ps qs : List (List Char)) : trims (ps ++ qs) = trims ps ++ trims qs := by
  rw [trims, List.map_append, List.filter_append, ← trims, ← trims]

theorem trims_eq_nil {ps : List (List Char)} (h : ink ps.flatten = []) : trims ps = [] := by
  have hink : ink (trims ps).flatten = [] := (ink_trims ps).trans h
  refine List.eq_nil_iff_forall_not_mem.2 fun p hp => ?_
  have htrimmed : Trimmed p := trimmed_of_mem_trims hp
  refine htrimmed.ink_ne_nil (ink_eq_nil_iff.2 fun c hc => ?_)
  exact ink_eq_nil_iff.1 hink c (List.mem_flatten.2 ⟨p, hp, hc⟩)

/-- Sections are the pieces between headings, trimmed, without those of blanks. -/
theorem sections_eq_trims {text : List Char} (h : ink text ≠ []) :
    sections text = trims (cutAtHeadings false (lines text)) := by
  have hcut := (cutAtHeadings_flatten false (lines text)).trans (lines_flatten text)
  unfold sections
  split
  next p hp =>
    obtain rfl : p = text := by simpa [hp] using hcut
    rw [hp, trims, List.map_singleton]
    refine (List.filter_eq_self.2 fun q hq => ?_).symm
    simpa [List.mem_singleton.1 hq] using (trimmed_trim_of_ink h).nonempty
  · rfl

/-- The chunks of a text are those of its pieces between headings. -/
theorem segment_eq (b : Budget) (text : List Char) :
    segment b text =
      ((trims (cutAtHeadings false (lines text))).flatMap (ofSection b)).filter fun c => !allBlank c := by
  unfold segment
  split
  next hblank =>
    have hink : ink (cutAtHeadings false (lines text)).flatten = [] := by
      rw [cutAtHeadings_flatten, lines_flatten]
      exact allBlank_iff.1 hblank
    rw [trims_eq_nil hink]
    rfl
  next hblank => rw [sections_eq_trims fun h => hblank (allBlank_iff.2 h)]

/-- A text behind which another section can begin: it is empty or ends with a line end, and it opens as many fences as
it closes. -/
structure Complete (text : List Char) : Prop where
  ended : ∀ c ∈ text.getLast?, isLineEnd c = true
  fences : Even ((lines text).countP isFence)

def Headed (text : List Char) : Prop := ∃ h ls, lines text = h :: ls ∧ isHeading h = true

/-- The text behind a complete one goes on in lines of its own if it begins with a heading. -/
theorem Complete.lines_append {s t : List Char} (hs : Complete s) (ht : Headed t) :
    lines (s ++ t) = lines s ++ lines t := by
  obtain ⟨h, ls, hlines, hh⟩ := ht
  refine Text.lines_append hs.ended ?_
  rw [← head?_lines, hlines, List.head?_cons, Option.bind_some, head?_of_isHeading hh]
  decide

theorem Complete.append {s t : List Char} (hs : Complete s) (ht : Complete t) (hhead : Headed t) :
    Complete (s ++ t) where
  ended c hc := by
    cases t with
    | nil => exact hs.ended c (by rwa [List.append_nil] at hc)
    | cons d t =>
      rw [List.getLast?_append, List.getLast?_cons, Option.some_or] at hc
      exact ht.ended c (by rwa [List.getLast?_cons])
  fences := by
    rw [hs.lines_append hhead, List.countP_append]
    exact hs.fences.add ht.fences

/-- Where a new section can begin behind a text, the chunks of both parts are those of the whole. -/
theorem segment_append (b : Budget) {s t : List Char} (hs : Complete s) (ht : Headed t) :
    segment b (s ++ t) = segment b s ++ segment b t := by
  have hlines := hs.lines_append ht
  obtain ⟨h, ls, ht, hh⟩ := ht
  -- Behind the heading nothing is cut off in front of it, so the first piece of the second text is empty.
  have hfirst : trims (cutAtHeadings false (h :: ls)) = trims (cutAtHeadings false (h :: ls)).tail := by
    rw [cutAtHeadings_cons, if_pos ⟨rfl, hh⟩]
    rfl
  rw [segment_eq, segment_eq, segment_eq, hlines, ht, cutAtHeadings_append ls hh (by simpa using hs.fences),
    trims_append, hfirst, List.flatMap_append, List.filter_append]

/-- A text that goes on with a section has the chunks of what stands before and those of the section. So whatever
section comes first, in the middle or last, the others keep their chunks. -/
theorem segmentText_append (b : Budget) {s t : String} (hs : Complete s.toList) (ht : Headed t.toList) :
    segmentText b (s ++ t) = segmentText b s ++ segmentText b t ∧
      ∀ u : String, Complete t.toList → Headed u.toList →
        segmentText b (s ++ t ++ u) = segmentText b s ++ segmentText b t ++ segmentText b u := by
  have hjoin {v w : String} (hv : Complete v.toList) (hw : Headed w.toList) :
      segmentText b (v ++ w) = segmentText b v ++ segmentText b w := by
    rw [segmentText, String.toList_append, segment_append b hv hw, List.map_append]
    rfl
  refine ⟨hjoin hs ht, fun u hcomplete hu => ?_⟩
  have hst : Complete (s ++ t).toList := by
    rw [String.toList_append]
    exact hs.append hcomplete ht
  rw [hjoin hst hu, hjoin hs ht]

/-- Sections behind fenced code that holds a line like a heading. -/
theorem segmentText_append_fenced :
    let b : Budget := .standard
    let s := "a\n\x60\x60\x60\n# b\n\x60\x60\x60\n"
    let t := "# T\nx\n"
    let u := "## U"
    (Complete s.toList ∧ Headed t.toList ∧ Complete t.toList ∧ Headed u.toList) ∧
      segmentText b (s ++ t) = segmentText b s ++ segmentText b t ∧
      segmentText b (s ++ t ++ u) = segmentText b s ++ segmentText b t ++ segmentText b u := by
  intro b s t u
  have hended {v : String} (h : v.toList.getLast? = some '\n') : ∀ c ∈ v.toList.getLast?, isLineEnd c = true := by
    rw [h]
    rintro c ⟨⟩
    decide
  have hs : Complete s.toList := ⟨hended (by decide +kernel), by decide +kernel⟩
  have ht : Headed t.toList := ⟨"# T\n".toList, ["x\n".toList], by decide +kernel, by decide +kernel⟩
  have hcomplete : Complete t.toList := ⟨hended (by decide +kernel), by decide +kernel⟩
  have hu : Headed u.toList := ⟨"## U".toList, [], by decide +kernel, by decide +kernel⟩
  obtain ⟨hfirst, hrest⟩ := segmentText_append b hs ht
  exact ⟨⟨hs, ht, hcomplete, hu⟩, hfirst, hrest u hcomplete hu⟩

end Compendium.Segment
