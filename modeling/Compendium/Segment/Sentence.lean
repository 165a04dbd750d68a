import Compendium.Text.Blank

/-! Sentences of a paragraph. -/
namespace Compendium.Segment

open Compendium.Text

def isStop (c : Char) : Bool := c = '.' || c = '!' || c = '?'

/-- The number of characters up to the end of the first sentence, the blanks behind it included: a sentence
ends at the first stop with a blank behind it. `passed` characters stand before `s`. -/
def sentenceEnd? (passed : Nat) : List Char → Option Nat
  | [] => none
  | c :: r =>
    if isStop c && r.head?.any isBlank then some (passed + 1 + (r.takeWhile isBlank).length)
    else sentenceEnd? (passed + 1) r

theorem sentenceEnd?_bounds {s : List Char} {n k : Nat} (h : sentenceEnd? n s = some k) : n < k ∧ s ≠ [] := by
  induction s generalizing n with
  | nil => simp [sentenceEnd?] at h
  | cons c r ih =>
    refine ⟨?_, by simp⟩
    rw [sentenceEnd?] at h
    split at h
    · injection h with h
      omega
    · exact Nat.lt_of_succ_lt (ih h).1

def cutAtStops (s : List Char) : List (List Char) :=
  match _h : sentenceEnd? 0 s with
  | none => [s]
  | some k => s.take k :: cutAtStops (s.drop k)
termination_by s.length
decreasing_by
  have := sentenceEnd?_bounds _h
  have := List.length_pos_iff.mpr this.2
  simp only [List.length_drop]
  omega

/-- The sentences of a text, trimmed, without those that are blank. -/
def sentences (s : List Char) : List (List Char) :=
  ((cutAtStops s).map trim).filter fun p => !p.isEmpty

end Compendium.Segment
