import Compendium.Json.Basic

/-! Writing structured values. -/
namespace Compendium.Json

open Compendium.Text (hexDigits)

structure Layout where
  comma : List Char
  colon : List Char
  asciiOnly : Bool

/-- A space after each comma and colon; characters outside ASCII are escaped. -/
def spaced : Layout := ⟨[',', ' '], [':', ' '], true⟩

/-- No space between tokens; characters outside ASCII stand as they are. -/
def compact : Layout := ⟨[','], [':'], false⟩

def unitEscape (n : Nat) : List Char := '\\' :: 'u' :: hexDigits 4 n

/-- A character that is escaped by number; past the first 65536 it takes a pair of units. -/
def numericEscape (c : Char) : List Char :=
  let n := c.toNat
  if n < 0x10000 then unitEscape n
  else unitEscape (0xD800 + (n - 0x10000) / 0x400) ++ unitEscape (0xDC00 + (n - 0x10000) % 0x400)

def escaped (asciiOnly : Bool) (c : Char) : List Char :=
  if c = '"' then ['\\', '"']
  else if c = '\\' then ['\\', '\\']
  else if c = '\n' then ['\\', 'n']
  else if c = '\r' then ['\\', 'r']
  else if c = '\t' then ['\\', 't']
  else if c = '\x08' then ['\\', 'b']
  else if c = '\x0c' then ['\\', 'f']
  else if c.toNat < 32 then numericEscape c
  else if asciiOnly && 126 < c.toNat then numericEscape c
  else [c]

def writeText (asciiOnly : Bool) (s : String) : List Char :=
  '"' :: s.toList.flatMap (escaped asciiOnly) ++ ['"']

/-- Numbers in their shortest form; the values that are no numbers have names. -/
def writeNumber : Number.Numeral → List Char
  | .whole n => (toString n).toList
  | .decimal x =>
    if x.isNaN then "NaN".toList
    else if x.isInf then if x < 0 then "-Infinity".toList else "Infinity".toList
    else (Number.shortest x).toList

mutual

def write (l : Layout) : Json → List Char
  | .null => "null".toList
  | .bool b => if b then "true".toList else "false".toList
  | .number n => writeNumber n
  | .text s => writeText l.asciiOnly s
  | .list [] => ['[', ']']
  | .list (v :: r) => '[' :: write l v ++ writeItems l r
  | .object [] => ['\x7b', '\x7d']
  | .object ((k, v) :: r) => '\x7b' :: writeText l.asciiOnly k ++ l.colon ++ write l v ++ writeFields l r

/-- The items after the first, with the bracket that closes the list. -/
def writeItems (l : Layout) : List Json → List Char
  | [] => [']']
  | v :: r => l.comma ++ write l v ++ writeItems l r

/-- The fields after the first, with the brace that closes the object. -/
def writeFields (l : Layout) : List (String × Json) → List Char
  | [] => ['\x7d']
  | (k, v) :: r => l.comma ++ writeText l.asciiOnly k ++ l.colon ++ write l v ++ writeFields l r

end

def print (l : Layout) (v : Json) : String := String.ofList (write l v)

end Compendium.Json
