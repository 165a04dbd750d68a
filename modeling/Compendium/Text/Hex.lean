/-! Hexadecimal digits. -/
namespace Compendium.Text

def hexDigit (n : Nat) : Char := if n < 10 then Char.ofNat (48 + n) else Char.ofNat (87 + n)

/-- The lowest `width` hexadecimal digits of a number, most significant first. -/
def hexDigits : (width : Nat) → (n : Nat) → List Char
  | 0, _ => []
  | width + 1, n => hexDigits width (n / 16) ++ [hexDigit (n % 16)]

def hexValue? (c : Char) : Option Nat :=
  if '0' ≤ c && c ≤ '9' then some (c.toNat - 48)
  else if 'a' ≤ c && c ≤ 'f' then some (c.toNat - 87)
  else if 'A' ≤ c && c ≤ 'F' then some (c.toNat - 55)
  else none

def hexOfBytes (bytes : List UInt8) : String :=
  String.ofList (bytes.flatMap fun b => hexDigits 2 b.toNat)

/-- The octets that a text of digit pairs stands for; a lone digit at the end is left out. -/
def bytesOfHex : List Char → List UInt8
  | a :: b :: r =>
    UInt8.ofNat ((hexValue? a).getD 0 * 16 + (hexValue? b).getD 0) :: bytesOfHex r
  | _ => []

end Compendium.Text
