import Compendium.Fault

/-! Size budgets of chunks, in tokens of about four characters. -/
namespace Compendium.Segment

def charsPerToken : Nat := 4

def tokens (s : List Char) : Nat := s.length / charsPerToken

/-- A chunk size and the part of it that two neighbouring chunks may share. -/
structure Budget where
  size : Nat
  overlap : Nat
  overlap_lt : overlap < size

namespace Budget

def standard : Budget := ⟨512, 50, by decide⟩

def ofInts (size overlap : Int) : Except Fault Budget :=
  if size ≤ 0 then .error .sizeNotPositive
  else if h : overlap < 0 ∨ size ≤ overlap then .error .overlapOutOfRange
  else .ok ⟨size.toNat, overlap.toNat, by omega⟩

def fits (b : Budget) (s : List Char) : Bool := tokens s ≤ b.size

end Budget

end Compendium.Segment
