import Compendium.Text.Hex

/-! Reading octets as text in the encoding with one to four octets for a character. -/
namespace Compendium.Text.Utf8

inductive Defect where
  | start
  | continuation
  | truncated
  deriving DecidableEq, Repr

/-- A defect with the positions it covers, the last one not included. -/
structure Fault where
  defect : Defect
  first : Nat
  stop : Nat
  octet : UInt8
  deriving DecidableEq, Repr

def Defect.message : Defect → String
  | .start => "invalid start byte"
  | .continuation => "invalid continuation byte"
  | .truncated => "unexpected end of data"

def Fault.message (f : Fault) : String :=
  let place :=
    if f.stop = f.first + 1 then
      "byte 0x" ++ String.ofList (hexDigits 2 f.octet.toNat) ++ " in position " ++ toString f.first
    else "bytes in position " ++ toString f.first ++ "-" ++ toString (f.stop - 1)
  "'utf-8' codec can't decode " ++ place ++ ": " ++ f.defect.message

def isContinuation (b : UInt8) : Bool := 0x80 ≤ b && b < 0xC0

/-- Whether `b` may follow the lead octet: the shortest form only, no surrogates, no code point past the last. -/
def isSecond (lead b : UInt8) : Bool :=
  isContinuation b && !(lead == 0xE0 && b < 0xA0) && !(lead == 0xED && 0xA0 ≤ b) &&
    !(lead == 0xF0 && b < 0x90) && !(lead == 0xF4 && 0x90 ≤ b)

/-- Number of octets that a lead octet announces; none for an octet that leads nothing. -/
def announced (lead : UInt8) : Nat :=
  if lead < 0x80 then 1
  else if lead < 0xC2 then 0
  else if lead < 0xE0 then 2
  else if lead < 0xF0 then 3
  else if lead < 0xF5 then 4
  else 0

/-- How many of the announced octets stand there in good form, the lead octet included. -/
def wellFormed (lead : UInt8) (rest : List UInt8) : Nat :=
  match rest with
  | [] => 1
  | b :: more =>
    if isSecond lead b then 2 + (more.takeWhile isContinuation).length else 1

def leadValue (size : Nat) (lead : UInt8) : Nat :=
  if size = 1 then lead.toNat
  else if size = 2 then lead.toNat - 0xC0
  else if size = 3 then lead.toNat - 0xE0
  else lead.toNat - 0xF0

/-- Reads on from `position`; `done` is the text so far, reversed. The fuel is the number of octets. -/
def decodeFrom : (fuel : Nat) → (position : Nat) → (done : List Char) → List UInt8 → Except Fault (List Char)
  | 0, _, done, _ => .ok done.reverse
  | _, _, done, [] => .ok done.reverse
  | fuel + 1, position, done, lead :: rest =>
    let size := announced lead
    if size = 0 then .error ⟨.start, position, position + 1, lead⟩
    else
      let good := if size = 1 then 1 else wellFormed lead rest
      if good < size then
        if rest.length + 1 ≤ good then .error ⟨.truncated, position, position + rest.length + 1, lead⟩
        else .error ⟨.continuation, position, position + good, lead⟩
      else
        let value := (rest.take (size - 1)).foldl (fun v b => v * 64 + (b.toNat - 0x80)) (leadValue size lead)
        decodeFrom fuel (position + size) (Char.ofNat value :: done) (rest.drop (size - 1))

def decode (bytes : List UInt8) : Except Fault String :=
  (decodeFrom bytes.length 0 [] bytes).map String.ofList

def encodeChar (c : Char) : List UInt8 :=
  let n := c.toNat
  let tail (k : Nat) : UInt8 := UInt8.ofNat (0x80 + n / Nat.pow 64 k % 64)
  if n < 0x80 then [UInt8.ofNat n]
  else if n < 0x800 then [UInt8.ofNat (0xC0 + n / 64), tail 0]
  else if n < 0x10000 then [UInt8.ofNat (0xE0 + n / 4096), tail 1, tail 0]
  else [UInt8.ofNat (0xF0 + n / 262144), tail 2, tail 1, tail 0]

def encode (s : String) : List UInt8 := s.toList.flatMap encodeChar

def size (s : String) : Nat := (encode s).length

end Compendium.Text.Utf8
