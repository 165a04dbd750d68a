import Compendium.Text.Blank

/-! Lines of a text. -/
namespace Compendium.Text

def lineEndRanges : List (Nat × Nat) := [(10, 13), (28, 30), (133, 133), (8232, 8233)]

def isLineEnd (c : Char) : Bool := inRanges lineEndRanges c

/-- Puts a character in front of a text that is already split into lines. A carriage return and the line
feed behind it end one line together. -/
def addToLines (c : Char) : List (List Char) → List (List Char)
  | [] => [[c]]
  | l :: ls =>
    if c = '\r' && l.head? = some '\n' then (c :: l) :: ls
    else if isLineEnd c then [c] :: l :: ls
    else (c :: l) :: ls

/-- The lines of a text in order, each with the characters that end it. -/
def lines (s : List Char) : List (List Char) := s.foldr addToLines []

/-- Puts a character in front of a text whose line ends are already line feeds. -/
def addUnified (c : Char) (s : List Char) (next : Option Char) : List Char :=
  if c = '\r' then (if next = some '\n' then s else '\n' :: s) else c :: s

/-- The text with a carriage return, alone or before a line feed, read as one line feed. -/
def unifyLineEnds (s : List Char) : List Char :=
  (s.foldr (fun c (t : List Char × Option Char) => (addUnified c t.1 t.2, some c)) ([], none)).1

theorem unifyLineEnds_cons (c : Char) (s : List Char) :
    unifyLineEnds (c :: s) = addUnified c (unifyLineEnds s) s.head? := by
  cases s <;> rfl

/-- No carriage return is left. -/
theorem not_mem_unifyLineEnds (s : List Char) : '\r' ∉ unifyLineEnds s := by
  induction s with
  | nil => exact List.not_mem_nil
  | cons c s ih =>
    rw [unifyLineEnds_cons, addUnified]
    split
    · split
      · exact ih
      · exact fun h => ih ((List.mem_cons.1 h).resolve_left (by decide))
    next hc => exact fun h => ih ((List.mem_cons.1 h).resolve_left (Ne.symm hc))

/-- Exactly the texts with a carriage return are changed. -/
theorem unifyLineEnds_eq_self_iff {s : List Char} : unifyLineEnds s = s ↔ '\r' ∉ s := by
  constructor
  · intro h
    rw [← h]
    exact not_mem_unifyLineEnds s
  · intro h
    induction s with
    | nil => rfl
    | cons c s ih =>
      rw [List.mem_cons, not_or] at h
      rw [unifyLineEnds_cons, addUnified, if_neg (Ne.symm h.1), ih h.2]

def isOneLine (s : List Char) : Bool := !s.any isLineEnd

end Compendium.Text
