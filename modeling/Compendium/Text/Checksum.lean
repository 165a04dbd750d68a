import Compendium.Text.Utf8

/-! The 32-bit cyclic redundancy check of octets. -/
namespace Compendium.Text

/-- The generator polynomial with its bits reversed. -/
def generator : UInt32 := 0xEDB88320

def checksumBit (r : UInt32) : UInt32 := if r &&& 1 = 1 then (r >>> 1) ^^^ generator else r >>> 1

def checksumOctet (r : UInt32) (b : UInt8) : UInt32 := Nat.repeat checksumBit 8 (r ^^^ b.toUInt32)

/-- The check of some octets; it starts with all bits set and is inverted at the end. -/
def checksum (bytes : List UInt8) : UInt32 := bytes.foldl checksumOctet 0xFFFFFFFF ^^^ 0xFFFFFFFF

end Compendium.Text
