import Compendium.Proofs.Text.Blank
import Compendium.Segment.Basic

/-!
Segmentation loses and invents nothing: but for blanks, the chunks tell the text once, and what a chunk
repeats is the end of the chunk before it.
-/
namespace Compendium.Segment

open Compendium.Text

/-! The cuts. Each gives pieces that hold the text but for blanks. -/

/-- Cutting behind sentences loses no character. -/
theorem cutAtStops_flatten (s : List Char) : (cutAtStops s).flatten = s := by
  fun_induction cutAtStops s with
  | case1 s => simp
  | case2 s k _ ih => rw [List.flatten_cons, ih, List.take_append_drop]

theorem breakLength_le (s : List Char) : breakLength s ≤ (s.takeWhile isBlank).length := by
  simpa [breakLength] using (List.dropWhile_suffix (· != '\n') (l := (s.takeWhile isBlank).reverse)).length_le

/-- What a paragraph break takes out of a text is blank. -/
theorem paragraphBreak?_blank {s : List Char} {n a b : Nat} (h : paragraphBreak? n s = some (a, b)) :
    n ≤ a ∧ a ≤ b ∧ ink ((s.drop (a - n)).take (b - a)) = [] := by
  induction s generalizing n with
  | nil => simp [paragraphBreak?] at h
  | cons c r ih =>
    rw [paragraphBreak?] at h
    split at h
    next hbreak =>
      obtain ⟨rfl, rfl⟩ : n = a ∧ n + 1 + breakLength r = b := by simpa using h
      have hc : c = '\n' := by simp_all
      refine ⟨Nat.le_refl n, by omega, ink_eq_nil_iff.2 fun x hx => ?_⟩
      rw [Nat.sub_self, List.drop_zero, show n + 1 + breakLength r - n = breakLength r + 1 by omega,
        List.take_succ_cons] at hx
      rcases List.mem_cons.1 hx with rfl | hx
      · rw [hc]
        decide
      · have hstart : r.take (breakLength r) <+: r := List.take_prefix _ r
        have hblanks : r.takeWhile isBlank <+: r := List.takeWhile_prefix _
        have htake : r.take (breakLength r) <+: r.takeWhile isBlank :=
          List.prefix_of_prefix_length_le hstart hblanks
            (Nat.le_trans (List.length_take_le _ _) (breakLength_le r))
        exact List.mem_takeWhile_imp (htake.subset hx)
    next =>
      obtain ⟨hn, hab, hink⟩ := ih h
      refine ⟨by omega, hab, ?_⟩
      rwa [show a - n = a - (n + 1) + 1 by omega, List.drop_succ_cons]

/-- Cutting between paragraphs loses blanks alone. -/
theorem ink_cutAtBreaks (s : List Char) : ink (cutAtBreaks s).flatten = ink s := by
  fun_induction cutAtBreaks s with
  | case1 s => simp
  | case2 s a b h ih =>
    obtain ⟨-, hab, hblank⟩ := paragraphBreak?_blank h
    have hdrop : ((s.drop a).take (b - a)) ++ s.drop b = s.drop a := by
      rw [show s.drop b = (s.drop a).drop (b - a) by rw [List.drop_drop, Nat.add_sub_cancel' hab],
        List.take_append_drop]
    rw [Nat.sub_zero] at hblank
    calc
      ink (s.take a :: cutAtBreaks (s.drop b)).flatten = ink (s.take a) ++ ink (s.drop b) := by
        rw [List.flatten_cons, ink_append, ih]
      _ = ink (s.take a) ++ ink (s.drop a) := by rw [← hdrop, ink_append, hblank, List.nil_append]
      _ = ink s := by rw [← ink_append, List.take_append_drop]

theorem lines_flatten (s : List Char) : (lines s).flatten = s := by
  have hadd (c : Char) (ls : List (List Char)) : (addToLines c ls).flatten = c :: ls.flatten := by
    unfold addToLines
    split
    · rfl
    · split <;> [rfl; (split <;> rfl)]
  induction s with
  | nil => rfl
  | cons c s ih => rw [lines, List.foldr_cons, hadd, ← lines, ih]

theorem pushLine_flatten (l : List Char) (ps : List (List Char)) : (pushLine l ps).flatten = l ++ ps.flatten := by
  cases ps <;> simp [pushLine]

/-- Cutting at headings loses no character. -/
theorem cutAtHeadings_flatten (fenced : Bool) (ls : List (List Char)) :
    (cutAtHeadings fenced ls).flatten = ls.flatten := by
  fun_induction cutAtHeadings fenced ls <;> simp_all [pushLine_flatten]

/-! Sections, paragraphs and sentences. -/

theorem ink_sections (text : List Char) : ink (sections text).flatten = ink text := by
  have hcut := (cutAtHeadings_flatten false (lines text)).trans (lines_flatten text)
  unfold sections
  split
  · simp
  · rw [ink_trims, hcut]

theorem trimmed_of_mem_sections {text s : List Char} (htext : ink text ≠ []) (h : s ∈ sections text) :
    Trimmed s := by
  unfold sections at h
  split at h
  · rw [List.mem_singleton.1 h]
    exact trimmed_trim_of_ink htext
  · exact trimmed_of_mem_trims h

theorem ink_paragraphs (s : List Char) : ink (paragraphs s).flatten = ink s := (ink_trims _).trans (ink_cutAtBreaks s)

theorem ink_sentences (s : List Char) : ink (sentences s).flatten = ink s := by
  rw [sentences, ink_trims, cutAtStops_flatten]

/-! What a chunk repeats and what it adds. -/

/-- A chunk in two parts: what it repeats of the chunk before it, and what it adds. -/
structure Share where
  repeated : List Char
  added : List Char

namespace Share

def text (u : Share) : List Char := u.repeated ++ u.added

def add (u : Share) (s : List Char) : Share := ⟨u.repeated, if u.text.isEmpty then s else u.added ++ ' ' :: s⟩

theorem text_add (u : Share) (s : List Char) : (u.add s).text = joined u.text s := by
  unfold joined
  split
  next h => simp_all [add, text]
  next h => simp_all [add, text]

theorem ink_add (u : Share) (s : List Char) : ink (u.add s).added = ink u.added ++ ink s := by
  have hblank : ink (' ' :: s) = ink s := rfl
  unfold add
  split
  next h => simp_all [text]
  next h => rw [ink_append, hblank]

end Share

/-- The chunks behind the chunk `before`: each begins with at most `most` characters that end the chunk before it. -/
inductive Carried (most : Nat) : List Char → List Share → Prop
  | nil (before : List Char) : Carried most before []
  | cons {before : List Char} {u : Share} {rest : List Share} :
      u.repeated <:+ before → u.repeated.length ≤ most → Carried most u.text rest →
        Carried most before (u :: rest)

/-- Chunks that begin afresh can follow any chunk, and any such chunks can follow them. -/
theorem Carried.append {most : Nat} {before : List Char} {us vs : List Share} (hu : Carried most before us)
    (hv : Carried most [] vs) : Carried most before (us ++ vs) := by
  induction hu with
  | nil before =>
    cases hv with
    | nil => exact .nil before
    | cons hs hlen hrest =>
      have hnil := List.suffix_nil.1 hs
      exact .cons (hnil ▸ List.nil_suffix) hlen hrest
  | cons hs hlen _ ih => exact .cons hs hlen ih

/-- The chunks, told as shares, hold the text once. -/
structure Tells (most : Nat) (before text : List Char) (shares : List Share) : Prop where
  carried : Carried most before shares
  told : ink (shares.flatMap Share.added) = ink text
  trimmed : ∀ u ∈ shares, Trimmed u.text

/-- Chunk texts that lose nothing of a text and invent nothing. -/
def Lossless (most : Nat) (text : List Char) (chunks : List (List Char)) : Prop :=
  ∃ shares : List Share, chunks = shares.map Share.text ∧ Tells most [] text shares

namespace Lossless

variable {most : Nat} {s t : List Char} {cs ds : List (List Char)}

theorem nil (h : ink t = []) : Lossless most t [] := ⟨[], rfl, .nil [], by simp [h], by simp⟩

theorem whole (h : Trimmed t) : Lossless most t [t] :=
  ⟨[⟨[], t⟩], rfl, .cons List.nil_suffix (Nat.zero_le _) (.nil _), by simp, by simpa [Share.text] using h⟩

theorem of_ink (h : Lossless most s cs) (heq : ink s = ink t) : Lossless most t cs :=
  let ⟨us, hcs, hu⟩ := h
  ⟨us, hcs, hu.carried, hu.told.trans heq, hu.trimmed⟩

/-- Two texts that are cut without a loss can be put together. -/
theorem append (hs : Lossless most s cs) (ht : Lossless most t ds) : Lossless most (s ++ t) (cs ++ ds) := by
  obtain ⟨us, rfl, hu⟩ := hs
  obtain ⟨vs, rfl, hv⟩ := ht
  refine ⟨us ++ vs, by rw [List.map_append], hu.carried.append hv.carried, ?_, ?_⟩
  · rw [List.flatMap_append, ink_append, hu.told, hv.told, ink_append]
  · exact List.forall_mem_append.2 ⟨hu.trimmed, hv.trimmed⟩

theorem flatMap {ps : List (List Char)} {f : List Char → List (List Char)} (h : ∀ p ∈ ps, Lossless most p (f p)) :
    Lossless most ps.flatten (ps.flatMap f) := by
  induction ps with
  | nil => exact nil rfl
  | cons p ps ih =>
    rw [List.flatten_cons, List.flatMap_cons]
    exact (h p List.mem_cons_self).append (ih fun q hq => h q (List.mem_cons_of_mem _ hq))

theorem trimmed (h : Lossless most t cs) : ∀ c ∈ cs, Trimmed c := by
  obtain ⟨us, rfl, hu⟩ := h
  exact List.forall_mem_map.2 hu.trimmed

end Lossless

/-! Packing. -/

theorem trimmed_joined {u s : List Char} (hu : u = [] ∨ Trimmed u) (hs : Trimmed s) : Trimmed (joined u s) := by
  unfold joined
  split
  next => exact hs
  next h =>
    have hu : Trimmed u := hu.resolve_left (by simpa using h)
    exact hu.join hs [' ']

/-- The overlap of a unit is an end of it, within the bound, without blanks at its ends. -/
theorem overlapOf_spec (b : Budget) {u : List Char} (hu : Trimmed u) :
    overlapOf b u <:+ u ∧ (overlapOf b u).length ≤ 4 * b.overlap ∧
      (overlapOf b u = [] ∨ Trimmed (overlapOf b u)) := by
  have htrim {t : List Char} (hs : t <:+ u) (hlen : t.length ≤ 4 * b.overlap) :
      trim t <:+ u ∧ (trim t).length ≤ 4 * b.overlap ∧ (trim t = [] ∨ Trimmed (trim t)) :=
    ⟨hu.trim_suffix hs, Nat.le_trans (length_trim_le t) hlen, (Decidable.em (trim t = [])).imp_right trimmed_trim⟩
  have hcount : b.overlap * charsPerToken = 4 * b.overlap := Nat.mul_comm _ 4
  unfold overlapOf
  split
  · exact ⟨List.nil_suffix, Nat.zero_le _, .inl rfl⟩
  rw [hcount]
  by_cases hle : u.length ≤ 4 * b.overlap
  · simpa only [hle, ↓reduceIte] using htrim (List.suffix_refl u) hle
  have hs : u.drop (u.length - 4 * b.overlap) <:+ u := List.drop_suffix _ u
  have hlen : (u.drop (u.length - 4 * b.overlap)).length ≤ 4 * b.overlap := by
    rw [List.length_drop]
    omega
  simp only [hle, ↓reduceIte]
  split
  · split
    · refine htrim ((List.drop_suffix _ _).trans hs) ?_
      rw [List.length_drop]
      omega
    · exact htrim hs hlen
  · exact htrim hs hlen

/-- Packing goes on from the unit `u`, whatever the unit before it was. -/
theorem packFrom_tells (b : Budget) {ss : List (List Char)} (hss : ∀ s ∈ ss, Trimmed s) {before : List Char}
    {u : Share} (hsuffix : u.repeated <:+ before) (hlen : u.repeated.length ≤ 4 * b.overlap)
    (hu : u.text = [] ∨ Trimmed u.text) :
    ∃ shares, packFrom b u.text ss = shares.map Share.text ∧
      Tells (4 * b.overlap) before (u.added ++ ss.flatten) shares := by
  induction ss generalizing before u with
  | nil =>
    rw [packFrom]
    split
    next hblank =>
      have hink : ink u.text = [] := allBlank_iff.1 hblank
      have hadded : ink u.added = [] := by simp_all [Share.text]
      exact ⟨[], rfl, .nil before, by simp [hadded], by simp⟩
    next hblank =>
      have hu : Trimmed u.text := hu.resolve_left fun he => hblank (by simp [he, allBlank])
      exact ⟨[u], rfl, .cons hsuffix hlen (.nil _), by simp, by simpa using hu⟩
  | cons s ss ih =>
    obtain ⟨hs, hss⟩ := List.forall_mem_cons.1 hss
    rw [packFrom]
    split
    next hfull =>
      -- `u` is closed, and the next unit opens with its overlap.
      have hu : Trimmed u.text := hu.resolve_left (by simp_all)
      obtain ⟨hsuf, hmost, hov⟩ := overlapOf_spec b hu
      let v : Share := (Share.mk (overlapOf b u.text) []).add s
      have hv : v.text = joined (overlapOf b u.text) s := by
        rw [Share.text_add, Share.text, List.append_nil]
      obtain ⟨shares, hpack, ht⟩ :=
        ih hss (u := v) hsuf hmost (.inr (by rw [hv]; exact trimmed_joined hov hs))
      refine ⟨u :: shares, by rw [List.map_cons, ← hpack, hv], .cons hsuffix hlen ht.carried, ?_, ?_⟩
      · rw [List.flatMap_cons, ink_append, ht.told, ink_append, Share.ink_add]
        simp
      · exact List.forall_mem_cons.2 ⟨hu, ht.trimmed⟩
    next =>
      have hadd : Trimmed (u.add s).text := by
        rw [Share.text_add]
        exact trimmed_joined hu hs
      obtain ⟨shares, hpack, ht⟩ := ih hss (u := u.add s) hsuffix hlen (.inr hadd)
      refine ⟨shares, by rw [← hpack, Share.text_add], ht.carried, ?_, ht.trimmed⟩
      rw [ht.told, ink_append, Share.ink_add]
      simp

/-- Packing the sentences of a paragraph repeats at most the overlap, and loses nothing. -/
theorem units_lossless (b : Budget) (p : List Char) : Lossless (4 * b.overlap) p (units b p) := by
  have hss : ∀ s ∈ sentences p, Trimmed s := fun s => trimmed_of_mem_trims
  have hnone : ([] : List Char) <:+ [] := List.nil_suffix
  obtain ⟨shares, hpack, ht⟩ := packFrom_tells b hss (u := ⟨[], []⟩) hnone (Nat.zero_le _) (.inl rfl)
  exact ⟨shares, hpack, ht.carried, ht.told.trans (ink_sentences p), ht.trimmed⟩

/-! Segmentation. -/

theorem ofParagraph_lossless (b : Budget) {p : List Char} (hp : Trimmed p) :
    Lossless (4 * b.overlap) p (ofParagraph b p) := by
  unfold ofParagraph
  split
  · exact .whole hp
  · exact units_lossless b p

theorem ofSection_lossless (b : Budget) {s : List Char} (hs : Trimmed s) :
    Lossless (4 * b.overlap) s (ofSection b s) := by
  unfold ofSection
  split
  · exact .whole hs
  · exact (Lossless.flatMap fun p hp => ofParagraph_lossless b (trimmed_of_mem_trims hp)).of_ink (ink_paragraphs s)

/-- The chunks of a text, section by section and paragraph by paragraph, hold it without a loss. -/
theorem segment_lossless (b : Budget) (text : List Char) : Lossless (4 * b.overlap) text (segment b text) := by
  unfold segment
  split
  next h => exact .nil (allBlank_iff.1 h)
  next h =>
    have hink : ink text ≠ [] := fun he => h (allBlank_iff.2 he)
    have hchunks : Lossless (4 * b.overlap) text ((sections text).flatMap (ofSection b)) :=
      (Lossless.flatMap fun s hs => ofSection_lossless b (trimmed_of_mem_sections hink hs)).of_ink (ink_sections text)
    have hfilter : ∀ c ∈ (sections text).flatMap (ofSection b), !allBlank c := fun c hc => by
      simpa using fun he => (hchunks.trimmed c hc).ink_ne_nil (allBlank_iff.1 he)
    rwa [List.filter_eq_self.2 hfilter]

/-- Only a text of blanks has no segments. -/
theorem segment_eq_nil_iff (b : Budget) (text : List Char) : segment b text = [] ↔ allBlank text = true := by
  constructor
  · intro h
    obtain ⟨shares, hchunks, ht⟩ := segment_lossless b text
    have hnone : shares = [] := List.map_eq_nil_iff.1 (hchunks.symm.trans h)
    rw [allBlank_iff, ← ht.told, hnone]
    rfl
  · exact fun h => if_pos h

/-- Only a text of blanks has no chunks. -/
theorem segmentText_eq_nil_iff (b : Budget) (text : String) : segmentText b text = [] ↔ isBlankText text = true := by
  rw [segmentText, List.map_eq_nil_iff, segment_eq_nil_iff, isBlankText]

/-- The chunks of a text, each parted into what it repeats and what it adds: what a chunk repeats is an end of
the chunk before it, of four characters at most for each token of the overlap; what the chunks add is the
text, but for blanks; and no chunk is empty or has a blank at an end. -/
theorem segmentText_lossless (b : Budget) (text : String) :
    ∃ shares : List Share, (segmentText b text).map String.toList = shares.map Share.text ∧
      Carried (4 * b.overlap) [] shares ∧
      ink (shares.flatMap Share.added) = ink text.toList ∧
      ∀ c ∈ segmentText b text, Trimmed c.toList := by
  obtain ⟨shares, hchunks, ht⟩ := segment_lossless b text.toList
  have htexts : (segmentText b text).map String.toList = shares.map Share.text := by
    rw [segmentText, List.map_map, ← hchunks]
    simp
  refine ⟨shares, htexts, ht.carried, ht.told, fun c hc => ?_⟩
  obtain ⟨u, hu, htext⟩ := List.mem_map.1 (htexts ▸ List.mem_map_of_mem hc : c.toList ∈ shares.map Share.text)
  exact htext ▸ ht.trimmed u hu

end Compendium.Segment
