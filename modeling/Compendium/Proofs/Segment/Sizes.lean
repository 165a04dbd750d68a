import Mathlib.Data.List.Chain
import Compendium.Proofs.Segment.Lossless

/-!
How long chunks get. A unit takes sentences as long as they fit, so it is over the budget only if a single sentence
is, together with the overlap in front of it; every other chunk fits.
-/
namespace Compendium.Segment

open Compendium.Text

theorem fits_iff {b : Budget} {s : List Char} : b.fits s = true ↔ s.length / 4 ≤ b.size := by
  rw [Budget.fits, decide_eq_true_iff, tokens, charsPerToken]

/-- A unit as it is packed: what it opens with, its first sentence, and the sentences that are added to that. -/
structure Packed where
  opening : List Char
  first : List Char
  more : List (List Char)

namespace Packed

def sentences (u : Packed) : List (List Char) := u.first :: u.more

def text (u : Packed) : List Char := u.sentences.foldl joined u.opening

def add (u : Packed) (s : List Char) : Packed := { u with more := u.more ++ [s] }

theorem text_add (u : Packed) (s : List Char) : (u.add s).text = joined u.text s := by
  simp [text, add, sentences]

theorem sentences_add (u : Packed) (s : List Char) : (u.add s).sentences = u.sentences ++ [s] := rfl

/-- A unit that comes next: it opens with the overlap of the one before, which had no room for its first sentence. -/
structure Follows (b : Budget) (u v : Packed) : Prop where
  opening : v.opening = overlapOf b u.text
  full : b.size < (u.text ++ ' ' :: v.first).length / 4

end Packed

/-- Units that sentences are packed into: they hold the sentences in order, the first opens with nothing or with a
given text and each other one follows the one before it, and none has a second sentence unless it fits the budget. -/
structure Packing (b : Budget) (opening : List Char) (ss : List (List Char)) (us : List Packed) : Prop where
  sentences : us.flatMap Packed.sentences = ss
  opening : ∀ u ∈ us.head?, u.opening = opening
  sized : ∀ u ∈ us, u.text.length / 4 ≤ b.size ∨ u.more = []
  follows : us.IsChain (Packed.Follows b)

/-- Packing goes on from the unit `u`. -/
theorem packFrom_packing (b : Budget) {ss : List (List Char)} (hss : ∀ s ∈ ss, Trimmed s) {u : Packed}
    (hu : Trimmed u.text) (hsized : u.text.length / 4 ≤ b.size ∨ u.more = []) :
    ∃ us, packFrom b u.text ss = us.map Packed.text ∧ Packing b u.opening (u.sentences ++ ss) us := by
  induction ss generalizing u with
  | nil =>
    have hink : ¬allBlank u.text = true := fun h => hu.ink_ne_nil (allBlank_iff.1 h)
    refine ⟨[u], by rw [packFrom, if_neg hink]; rfl, by simp, by simp, by simpa using hsized,
      List.isChain_singleton u⟩
  | cons s ss ih =>
    obtain ⟨hs, hss⟩ := List.forall_mem_cons.1 hss
    have hjoined : joined u.text s = u.text ++ ' ' :: s := by simp [joined, hu.nonempty]
    rw [packFrom]
    split
    next hfull =>
      -- `u` is closed; the unit behind it holds `s` alone so far.
      let v : Packed := ⟨overlapOf b u.text, s, []⟩
      have hv : Trimmed v.text := trimmed_joined (overlapOf_spec b hu).2.2 hs
      obtain ⟨us, hpack, hus⟩ := ih hss hv (.inr rfl)
      have hnext : ∀ w ∈ us.head?, Packed.Follows b u w := fun w hw => by
        obtain ⟨rest, rfl⟩ := List.head?_eq_some_iff.1 hw
        have hfirst : w.first = s := (List.cons.inj hus.sentences).1
        refine ⟨hus.opening w hw, ?_⟩
        rw [hfirst, ← hjoined, ← Nat.not_le, ← fits_iff]
        simp_all
      refine ⟨u :: us, by rw [List.map_cons, ← hpack]; rfl, ?_, by simp, ?_, hus.follows.cons hnext⟩
      · rw [List.flatMap_cons, hus.sentences]
        rfl
      · exact List.forall_mem_cons.2 ⟨hsized, hus.sized⟩
    next hroom =>
      have hfits : b.fits (u.add s).text = true := by
        rw [Packed.text_add]
        simpa [hu.nonempty] using hroom
      have hadd : Trimmed (u.add s).text := by
        rw [Packed.text_add]
        exact trimmed_joined (.inr hu) hs
      obtain ⟨us, hpack, hus⟩ := ih hss hadd (.inl (fits_iff.1 hfits))
      rw [Packed.sentences_add, List.append_assoc] at hus
      exact ⟨us, by rw [← hpack, Packed.text_add], hus⟩

/-- The units of a paragraph are packed from its sentences. -/
theorem units_packing (b : Budget) (p : List Char) :
    ∃ us, units b p = us.map Packed.text ∧ Packing b [] (sentences p) us := by
  have htrimmed : ∀ s ∈ sentences p, Trimmed s := fun s => trimmed_of_mem_trims
  rw [units]
  cases hss : sentences p with
  | nil => exact ⟨[], rfl, rfl, by simp, by simp, List.isChain_nil⟩
  | cons s ss =>
    rw [hss, List.forall_mem_cons] at htrimmed
    obtain ⟨us, hpack, hus⟩ := packFrom_packing b htrimmed.2 (u := ⟨[], s, []⟩) htrimmed.1 (.inr rfl)
    exact ⟨us, hpack, hus⟩

/-! Lengths. -/

/-- The length of the longest of some texts, zero if there are none. -/
def longest (ss : List (List Char)) : Nat := (ss.map List.length).max?.getD 0

theorem length_le_longest {s : List Char} {ss : List (List Char)} (h : s ∈ ss) : s.length ≤ longest ss :=
  List.le_max?_getD_of_mem (List.mem_map_of_mem h)

/-- The paragraphs that are packed: they and their sections are over the budget. -/
def packedParagraphs (b : Budget) (text : List Char) : List (List Char) :=
  ((sections text).filter fun s => !b.fits s).flatMap fun s => (paragraphs s).filter fun p => !b.fits p

theorem length_joined_le (o s : List Char) : (joined o s).length ≤ o.length + 1 + s.length := by
  unfold joined
  split
  · omega
  · rw [List.length_append, List.length_cons]
    omega

/-- A text that fits has at most three characters more than four for each token. -/
theorem length_of_fits {b : Budget} {s : List Char} (h : s.length / 4 ≤ b.size) : s.length ≤ 4 * b.size + 3 := by
  omega

/-- What a unit opens with is no longer than the overlap. -/
theorem Packing.length_opening {b : Budget} {opening : List Char} {ss : List (List Char)} {us : List Packed}
    (h : Packing b opening ss us) (hopening : opening.length ≤ 4 * b.overlap) (hus : ∀ u ∈ us, Trimmed u.text) :
    ∀ u ∈ us, u.opening.length ≤ 4 * b.overlap := by
  have hchain := h.follows
  have hfirst : ∀ u ∈ us.head?, u.opening.length ≤ 4 * b.overlap := fun u hu => h.opening u hu ▸ hopening
  clear h
  induction us with
  | nil => exact nofun
  | cons u us ih =>
    obtain ⟨hnext, hchain⟩ := List.isChain_cons.1 hchain
    obtain ⟨hu, hus⟩ := List.forall_mem_cons.1 hus
    refine List.forall_mem_cons.2 ⟨hfirst u rfl, ih hus hchain fun v hv => ?_⟩
    rw [(hnext v hv).opening]
    exact (overlapOf_spec b hu).2.1

/-- A unit that does not fit is one sentence behind an overlap. -/
theorem length_of_mem_units {b : Budget} {p c : List Char} {l : Nat} (hl : ∀ s ∈ sentences p, s.length ≤ l)
    (h : c ∈ units b p) : c.length ≤ max (4 * b.size + 3) (4 * b.overlap + 1 + l) := by
  obtain ⟨us, hunits, hus⟩ := units_packing b p
  have htrimmed : ∀ u ∈ us, Trimmed u.text := fun u hu =>
    (units_lossless b p).trimmed _ (hunits ▸ List.mem_map_of_mem hu)
  rw [hunits] at h
  obtain ⟨u, hu, rfl⟩ := List.mem_map.1 h
  rcases hus.sized u hu with hfits | hone
  · exact Nat.le_trans (length_of_fits hfits) (Nat.le_max_left _ _)
  · have hopening := hus.length_opening (Nat.zero_le _) htrimmed u hu
    have hfirst : u.first ∈ sentences p := hus.sentences ▸ List.mem_flatMap.2 ⟨u, hu, List.mem_cons_self⟩
    refine Nat.le_trans ?_ (Nat.le_max_right _ _)
    calc
      u.text.length = (joined u.opening u.first).length := by rw [Packed.text, Packed.sentences, hone]; rfl
      _ ≤ u.opening.length + 1 + u.first.length := length_joined_le _ _
      _ ≤ 4 * b.overlap + 1 + l := by
        have := hl _ hfirst
        omega

/-- A chunk keeps to the budget, unless a sentence does not fit behind an overlap. -/
theorem length_of_mem_segment {b : Budget} {text c : List Char} (h : c ∈ segment b text) :
    c.length ≤ max (4 * b.size + 3) (4 * b.overlap + 1 + longest ((packedParagraphs b text).flatMap sentences)) := by
  rw [segment] at h
  split at h
  · cases h
  obtain ⟨s, hs, hc⟩ := List.mem_flatMap.1 (List.mem_of_mem_filter h)
  rw [ofSection] at hc
  split at hc
  next hfits =>
    rw [List.mem_singleton.1 hc]
    exact Nat.le_trans (length_of_fits (fits_iff.1 hfits)) (Nat.le_max_left _ _)
  next hsection =>
    obtain ⟨p, hp, hc⟩ := List.mem_flatMap.1 hc
    rw [ofParagraph] at hc
    split at hc
    next hfits =>
      rw [List.mem_singleton.1 hc]
      exact Nat.le_trans (length_of_fits (fits_iff.1 hfits)) (Nat.le_max_left _ _)
    next hparagraph =>
      have hpacked : p ∈ packedParagraphs b text :=
        List.mem_flatMap.2 ⟨s, List.mem_filter.2 ⟨hs, by simpa using hsection⟩,
          List.mem_filter.2 ⟨hp, by simpa using hparagraph⟩⟩
      exact length_of_mem_units (fun s hs => length_le_longest (List.mem_flatMap.2 ⟨p, hpacked, hs⟩)) hc

/-- Sentences are packed in order, and a unit is closed only when the next sentence has no room in it; a unit over the
budget is one sentence, perhaps behind the overlap of the unit before it. So no chunk is longer than a full one, unless
it is a packed sentence behind an overlap. -/
theorem packed_within_bounds (b : Budget) :
    (∀ p, ∃ us, units b p = us.map Packed.text ∧ Packing b [] (sentences p) us) ∧
      ∀ text, ∀ c ∈ segmentText b text,
        c.length ≤ max (4 * b.size + 3)
          (4 * b.overlap + 1 + longest ((packedParagraphs b text.toList).flatMap sentences)) := by
  refine ⟨units_packing b, fun text c hc => ?_⟩
  obtain ⟨s, hs, rfl⟩ := List.mem_map.1 hc
  rw [String.length_ofList]
  exact length_of_mem_segment hs

/-- A sentence over the budget stands behind an overlap of four characters, and no more is allowed. -/
theorem packed_within_bounds_tight :
    let b : Budget := ⟨2, 1, by decide⟩
    let text := "aaaa. bbb. cccccccccccccc."
    let chunk := "bbb. cccccccccccccc."
    chunk ∈ segmentText b text ∧
      chunk.length ≤ max (4 * b.size + 3)
        (4 * b.overlap + 1 + longest ((packedParagraphs b text.toList).flatMap sentences)) ∧
      chunk.length = 4 * b.overlap + 1 + longest ((packedParagraphs b text.toList).flatMap sentences) := by
  intro b text chunk
  have hmem : chunk ∈ segmentText b text := by decide +kernel
  exact ⟨hmem, (packed_within_bounds b).2 text chunk hmem, by decide +kernel⟩

end Compendium.Segment
