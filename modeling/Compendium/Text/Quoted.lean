import Compendium.Text.Blank
import Compendium.Text.Hex
import Compendium.Text.PrintableTable

/-! Quoted texts: one line of printable characters that shows a text without doubt. -/
namespace Compendium.Text

def isPrintable (c : Char) : Bool :=
  if c.toNat < 127 then 32 ≤ c.toNat else !inRanges unprintableRanges c

/-- The escape of a character by its number, with as many digits as its size asks for. -/
def numberEscape (c : Char) : List Char :=
  if c.toNat < 256 then '\\' :: 'x' :: hexDigits 2 c.toNat
  else if c.toNat < 65536 then '\\' :: 'u' :: hexDigits 4 c.toNat
  else '\\' :: 'U' :: hexDigits 8 c.toNat

def quotedChar (mark c : Char) : List Char :=
  if c = mark || c = '\\' then ['\\', c]
  else if c = '\n' then ['\\', 'n']
  else if c = '\r' then ['\\', 'r']
  else if c = '\t' then ['\\', 't']
  else if isPrintable c then [c]
  else numberEscape c

/-- The mark is `'`, but `"` for a text that holds `'` and no `"`. -/
def quotationMark (s : List Char) : Char :=
  if s.contains '\'' && !s.contains '"' then '"' else '\''

def quoted (s : String) : String :=
  let mark := quotationMark s.toList
  String.ofList (mark :: s.toList.flatMap (quotedChar mark) ++ [mark])

/-- The text with every character outside ASCII escaped by its number. -/
def inAscii (s : String) : String :=
  String.ofList (s.toList.flatMap fun c => if c.toNat < 128 then [c] else numberEscape c)

end Compendium.Text
