import Compendium.Number.Binary
import Compendium.Text.Hex

/-! Single-precision numbers as bit patterns. -/
namespace Compendium.Number

/-- A single-precision number, held as its bits so that equality and storage are exact. -/
structure Single where
  bits : UInt32
  deriving DecidableEq, Repr, Inhabited

def Single.ofFloat (x : Float) : Single := ⟨x.toFloat32.toBits⟩

def Single.exponentField (s : Single) : Nat := s.bits.toNat / twoTo 23 % 256

/-- Neither infinite nor undefined: the exponent field is not all ones. -/
def Single.isFinite (s : Single) : Bool := s.exponentField != 255

def Single.toFloat (s : Single) : Float :=
  let negative := twoTo 31 ≤ s.bits.toNat
  let fraction := s.bits.toNat % twoTo 23
  if s.exponentField = 255 then
    if fraction ≠ 0 then 0.0 / 0.0 else if negative then -1.0 / 0.0 else 1.0 / 0.0
  -- a field of zero stands for the least exponent, without the leading bit
  else if s.exponentField = 0 then ofQuotient negative fraction (twoTo 149)
  else ofQuotient negative ((twoTo 23 + fraction) * twoTo s.exponentField) (twoTo 150)

/-- The four octets, least significant first. -/
def Single.toBytes (s : Single) : List UInt8 :=
  let n := s.bits.toNat
  [UInt8.ofNat n, UInt8.ofNat (n / twoTo 8), UInt8.ofNat (n / twoTo 16), UInt8.ofNat (n / twoTo 24)]

def Single.ofBytes (a b c d : UInt8) : Single :=
  ⟨UInt32.ofNat (a.toNat + twoTo 8 * b.toNat + twoTo 16 * c.toNat + twoTo 24 * d.toNat)⟩

def Single.encode (v : List Single) : List UInt8 := v.flatMap Single.toBytes

/-- Reads octets four by four; none when some are left over. -/
def Single.decode? : List UInt8 → Option (List Single)
  | [] => some []
  | a :: b :: c :: d :: r => (Single.decode? r).map (Single.ofBytes a b c d :: ·)
  | _ => none

/-- The four octets of a number make the number again. -/
theorem Single.ofBytes_toBytes (s : Single) :
    Single.ofBytes (UInt8.ofNat s.bits.toNat) (UInt8.ofNat (s.bits.toNat / twoTo 8))
      (UInt8.ofNat (s.bits.toNat / twoTo 16)) (UInt8.ofNat (s.bits.toNat / twoTo 24)) = s := by
  obtain ⟨bits⟩ := s
  have h := bits.toNat_lt
  have h8 : twoTo 8 = 256 := rfl
  have h16 : twoTo 16 = 65536 := rfl
  have h24 : twoTo 24 = 16777216 := rfl
  rw [Single.ofBytes, Single.mk.injEq, ← UInt32.toNat_inj, UInt32.toNat_ofNat']
  simp only [UInt8.toNat_ofNat', h8, h16, h24]
  omega

/-- Numbers come back from their octets. -/
theorem Single.decode?_encode (v : List Single) : Single.decode? (Single.encode v) = some v := by
  induction v with
  | nil => rfl
  | cons s v ih =>
    rw [Single.encode, List.flatMap_cons, ← Single.encode]
    change (Single.decode? (Single.encode v)).map _ = _
    rw [ih, Option.map_some, Single.ofBytes_toBytes]

/-- The number that four octets make has these octets. -/
theorem Single.toBytes_ofBytes (a b c d : UInt8) : (Single.ofBytes a b c d).toBytes = [a, b, c, d] := by
  have ha := a.toNat_lt
  have hb := b.toNat_lt
  have hc := c.toNat_lt
  have hd := d.toNat_lt
  have h8 : twoTo 8 = 256 := rfl
  have h16 : twoTo 16 = 65536 := rfl
  have h24 : twoTo 24 = 16777216 := rfl
  simp only [Single.ofBytes, Single.toBytes, UInt32.toNat_ofNat', h8, h16, h24, List.cons.injEq, and_true,
    ← UInt8.toNat_inj, UInt8.toNat_ofNat']
  omega

/-- Octets in fours are those of the numbers that they make. -/
theorem Single.encode_decode? {bytes : List UInt8} (h : bytes.length % 4 = 0) :
    ∃ v, Single.decode? bytes = some v ∧ Single.encode v = bytes := by
  induction bytes using Single.decode?.induct with
  | case1 => exact ⟨[], rfl, rfl⟩
  | case2 a b c d r ih =>
    simp only [List.length_cons] at h
    obtain ⟨v, hv, hr⟩ := ih (by omega)
    refine ⟨Single.ofBytes a b c d :: v, by rw [Single.decode?, hv]; rfl, ?_⟩
    rw [Single.encode, List.flatMap_cons, ← Single.encode, Single.toBytes_ofBytes, hr]
    rfl
  | case3 bytes hnil hfour =>
    match bytes, h with
    | [], _ => exact absurd rfl hnil
    | a :: b :: c :: d :: r, _ => exact absurd rfl (hfour a b c d r)

end Compendium.Number
