import Compendium.Text.Blank

/-! Paragraphs of a section, parted by blank lines. -/
namespace Compendium.Segment

open Compendium.Text

/-- The length of a break between paragraphs at the front of what follows a line feed: the blanks up to the
last line feed among them. Zero when no line feed is among them. -/
def breakLength (s : List Char) : Nat :=
  ((s.takeWhile isBlank).reverse.dropWhile (· != '\n')).length

/-- The number of characters before the first paragraph break, and the number behind which it ends;
`passed` characters stand before `s`. -/
def paragraphBreak? (passed : Nat) : List Char → Option (Nat × Nat)
  | [] => none
  | c :: r =>
    if c = '\n' && breakLength r != 0 then some (passed, passed + 1 + breakLength r)
    else paragraphBreak? (passed + 1) r

/-- A break ends behind the place where the search for it began. -/
theorem paragraphBreak?_bounds {s : List Char} {n a b : Nat} (h : paragraphBreak? n s = some (a, b)) :
    n < b ∧ s ≠ [] := by
  induction s generalizing n with
  | nil => simp [paragraphBreak?] at h
  | cons c r ih =>
    refine ⟨?_, by simp⟩
    rw [paragraphBreak?] at h
    split at h
    · injection h with h
      injection h with _ h
      omega
    · exact Nat.lt_of_succ_lt (ih h).1

def cutAtBreaks (s : List Char) : List (List Char) :=
  match _h : paragraphBreak? 0 s with
  | none => [s]
  | some (a, b) => s.take a :: cutAtBreaks (s.drop b)
termination_by s.length
decreasing_by
  have := paragraphBreak?_bounds _h
  have := List.length_pos_iff.mpr this.2
  simp only [List.length_drop]
  omega

/-- The paragraphs of a text, trimmed, without those that are blank. -/
def paragraphs (s : List Char) : List (List Char) :=
  ((cutAtBreaks s).map trim).filter fun p => !p.isEmpty

end Compendium.Segment
