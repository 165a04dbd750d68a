import Mathlib.Tactic.Ring
import Mathlib.Tactic.SplitIfs
import Compendium.Number.Binary

/-!
The range of double precision. A number given by its bits is finite unless its exponent field is all ones, and a whole
number has a nearest finite one unless it reaches half a unit in the last place beyond the largest of them, which is
`2 ^ 1024 - 2 ^ 970`.
-/
namespace Compendium.Number

open Float.Model (Format UnpackedFloat)
open Float.Model.UnpackedFloat (unpackExponent unpackMantissa)

section Bits

theorem exponentBias_eq : Format.binary64.exponentBias = 1023 := rfl

def exponentField (b : BitVec 64) : Nat := b.toNat / 2 ^ 52 % 2048

theorem toNat_unpackExponent (b : BitVec 64) :
    (@unpackExponent .binary64 b).toNat = exponentField b := by
  simp [unpackExponent, exponentField, Nat.shiftRight_eq_div_pow]

theorem unpackExponent_eq_iff (b : BitVec 64) :
    @unpackExponent .binary64 b = -1#11 ↔ exponentField b = 2047 := by
  rw [← BitVec.toNat_inj, toNat_unpackExponent]
  rfl

/-- Unless the exponent field is all ones, a number is zero or has an exponent of at most 971. -/
theorem unpack_eq_zero_or_finite {b : BitVec 64} (h : exponentField b ≠ 2047) :
    (∃ s, UnpackedFloat.unpack Format.binary64 b = .zero s) ∨
      ∃ s m e hm, UnpackedFloat.unpack Format.binary64 b = .finite s m e hm ∧ e ≤ 971 := by
  have hlt : exponentField b < 2048 := Nat.mod_lt _ (by decide)
  -- opened by `delta`, as the equations of this definition are not for this module to declare
  delta UnpackedFloat.unpack
  dsimp only
  rw [if_neg (mt (unpackExponent_eq_iff b).1 h), toNat_unpackExponent, exponentBias_eq]
  by_cases hzero : @unpackExponent .binary64 b = 0#11
  · -- a subnormal number counts as one of exponent field one
    have hfield : exponentField b = 0 := by
      rw [← toNat_unpackExponent, hzero]
      rfl
    rw [if_pos hzero]
    by_cases hm : @unpackMantissa .binary64 b = 0#52
    · exact .inl ⟨_, dif_pos hm⟩
    · refine .inr ⟨_, _, _, _, dif_neg hm, ?_⟩
      rw [hfield]
      decide
  · refine .inr ⟨_, _, _, _, if_neg hzero, ?_⟩
    omega

theorem isFinite_unpack (b : BitVec 64) :
    (UnpackedFloat.unpack Format.binary64 b).isFinite = (exponentField b != 2047) := by
  by_cases h : exponentField b = 2047
  · have he := (unpackExponent_eq_iff b).2 h
    delta UnpackedFloat.unpack
    dsimp only
    rw [if_pos he, h]
    split <;> rfl
  · rw [bne_iff_ne.2 h]
    obtain ⟨s, hzero⟩ | ⟨s, m, e, hm, hfinite, -⟩ := unpack_eq_zero_or_finite h
    · rw [hzero]
      rfl
    · rw [hfinite]
      rfl

theorem isFinite_unpack_packComponents (s : UnpackedFloat.Sign) (e : BitVec 11) (m : BitVec 52) :
    (UnpackedFloat.unpack Format.binary64 (UnpackedFloat.packComponents Format.binary64 s e m)).isFinite =
      (e != -1#11) := by
  have hfield : exponentField (UnpackedFloat.packComponents Format.binary64 s e m) = e.toNat := by
    rw [← toNat_unpackExponent]
    exact congrArg BitVec.toNat UnpackedFloat.unpackExponent_packComponents
  rw [isFinite_unpack, hfield, Bool.eq_iff_iff, bne_iff_ne, bne_iff_ne, ← BitVec.toNat_ne_iff_ne]
  rfl

/-- Packing cuts a number off at infinity only if its exponent is too large. -/
theorem isFinite_unpack_pack {x : UnpackedFloat} (h : ∀ s m e hm, x = .finite s m e hm → e ≤ 971) :
    (UnpackedFloat.unpack Format.binary64 (UnpackedFloat.pack Format.binary64 x)).isFinite = x.isFinite := by
  cases x with
  | notANumber => exact isFinite_unpack_packComponents ..
  | infinity s => exact isFinite_unpack_packComponents ..
  | zero s => exact isFinite_unpack_packComponents ..
  | finite s m e hm =>
    have he := h s m e hm rfl
    have hbiased : ¬ 2 ^ 11 ≤ (e + (1023 : Nat) + (52 : Nat)).toNat + 1 := by omega
    have hexponent : BitVec.ofNat 11 (e + (1023 : Nat) + (52 : Nat)).toNat ≠ -1#11 := by
      have hones : (-1#11).toNat = 2047 := rfl
      rw [← BitVec.toNat_ne_iff_ne, BitVec.toNat_ofNat, Nat.mod_eq_of_lt (by omega)]
      omega
    delta UnpackedFloat.pack
    dsimp only
    rw [exponentBias_eq, if_neg hbiased]
    change _ = true
    split
    · exact (isFinite_unpack_packComponents ..).trans (bne_iff_ne.2 hexponent)
    · exact isFinite_unpack_packComponents ..

/-- Finite numbers given by their bits have exponents of at most 971. -/
theorem unpack_exponent_le {b : BitVec 64} {s m e hm} (h : UnpackedFloat.unpack Format.binary64 b = .finite s m e hm) :
    e ≤ 971 := by
  have hfield : exponentField b ≠ 2047 := by
    have hfinite := isFinite_unpack b
    rw [h] at hfinite
    exact bne_iff_ne.1 hfinite.symm
  obtain ⟨s', hzero⟩ | ⟨s', m', e', hm', hfinite, he⟩ := unpack_eq_zero_or_finite hfield
  · cases h.symm.trans hzero
  · cases h.symm.trans hfinite
    exact he

/-- A number given by its bits is finite unless its exponent field is all ones. -/
theorem isFinite_ofBits (bits : UInt64) :
    (Float.ofBits bits).isFinite = (exponentField bits.toBitVec != 2047) := by
  rw [← isFinite_unpack]
  exact isFinite_unpack_pack fun _ _ _ _ h => unpack_exponent_le h

end Bits

section Rounding

/-- A quotient is rounded up to an even number from half a unit below it on. -/
theorem le_roundDiv_iff {n d k : Nat} (hd : 0 < d) (hpos : 0 < k) (heven : k % 2 = 0) :
    k ≤ roundDiv n d ↔ (2 * k - 1) * d ≤ 2 * n := by
  obtain ⟨j, rfl⟩ : ∃ j, k = j + 1 := ⟨k - 1, by omega⟩
  have hn : d * (n / d) + n % d = n := Nat.div_add_mod n d
  have hr : n % d < d := Nat.mod_lt n hd
  have hleft : (2 * (j + 1) - 1) * d = 2 * (d * j) + d := by
    rw [show 2 * (j + 1) - 1 = 2 * j + 1 by omega]
    ring
  rw [hleft]
  simp only [roundDiv]
  generalize n / d = q at *
  generalize n % d = r at *
  -- only for `j = q` does the rest of the division count
  rcases Nat.lt_trichotomy j q with h | rfl | h
  · have hmul : d * j + d ≤ d * q := Nat.mul_le_mul_left d h
    constructor
    · omega
    · split_ifs <;> omega
  · split_ifs <;> omega
  · have hmul : d * q + d ≤ d * j := Nat.mul_le_mul_left d h
    constructor
    · split_ifs <;> omega
    · omega

theorem roundDiv_le_succ (n d : Nat) : roundDiv n d ≤ n / d + 1 := by
  simp only [roundDiv]
  split_ifs <;> omega

@[simp] theorem roundDiv_one (n : Nat) : roundDiv n 1 = n := by
  simp [roundDiv, Nat.mod_one]

/-- A whole number keeps its 53 leading binary digits. -/
theorem roundingExponent_one {n : Nat} (hn : n ≠ 0) : roundingExponent n 1 = (n.log2 : Int) - 52 := by
  have hlow := Nat.log2_self_le hn
  have hone : Nat.log2 1 = 0 := rfl
  simp only [roundingExponent, hone, twoTo, Nat.pow_eq]
  rw [if_pos]
  · rw [leastExponent]
    omega
  · by_cases hlog : 52 ≤ n.log2
    · have hpow : 2 ^ 52 * (1 * 2 ^ (n.log2 - 52)) = 2 ^ n.log2 := by
        rw [Nat.one_mul, ← Nat.pow_add, Nat.add_sub_cancel' hlog]
      rw [if_pos (by omega), show ((n.log2 : Int) - ((0 : Nat) : Int) - 52).toNat = n.log2 - 52 by omega, hpow]
      exact hlow
    · rw [if_neg (by omega), show (-((n.log2 : Int) - ((0 : Nat) : Int) - 52)).toNat = 52 - n.log2 by omega]
      calc 2 ^ 52 * 1 = 2 ^ n.log2 * 2 ^ (52 - n.log2) := by rw [Nat.mul_one, ← Nat.pow_add]; congr 1; omega
        _ ≤ n * 2 ^ (52 - n.log2) := Nat.mul_le_mul_right _ hlow

/-- The mantissa that a whole number is given: its 53 leading binary digits, rounded. -/
def mantissaOf (n : Nat) : Nat :=
  if 52 ≤ n.log2 then roundDiv n (2 ^ (n.log2 - 52)) else n * 2 ^ (52 - n.log2)

/-- Rounding may take the mantissa up to the next power of two, and no further. -/
theorem mantissaOf_mem {n : Nat} (hn : n ≠ 0) : 2 ^ 52 ≤ mantissaOf n ∧ mantissaOf n ≤ 2 ^ 53 := by
  have hlow := Nat.log2_self_le hn
  have hhigh := Nat.lt_log2_self (n := n)
  rw [mantissaOf]
  split
  · next hlog =>
    have hd : 0 < 2 ^ (n.log2 - 52) := Nat.two_pow_pos _
    have hpow : 2 ^ n.log2 = 2 ^ 52 * 2 ^ (n.log2 - 52) := by rw [← Nat.pow_add, Nat.add_sub_cancel' hlog]
    constructor
    · rw [le_roundDiv_iff hd (by decide) (by decide)]
      have : (2 * 2 ^ 52 - 1) * 2 ^ (n.log2 - 52) ≤ 2 * 2 ^ 52 * 2 ^ (n.log2 - 52) :=
        Nat.mul_le_mul_right _ (Nat.sub_le _ _)
      rw [Nat.mul_assoc, ← hpow] at this
      omega
    · have hq : n / 2 ^ (n.log2 - 52) < 2 ^ 53 := by
        rw [Nat.div_lt_iff_lt_mul hd]
        have : 2 ^ (n.log2 + 1) = 2 ^ 53 * 2 ^ (n.log2 - 52) := by
          rw [Nat.pow_succ, hpow]
          ring
        omega
      have := roundDiv_le_succ n (2 ^ (n.log2 - 52))
      omega
  · next hlog =>
    have hlow' : 2 ^ 52 = 2 ^ n.log2 * 2 ^ (52 - n.log2) := by rw [← Nat.pow_add]; congr 1; omega
    have hhigh' : 2 ^ 53 = 2 ^ (n.log2 + 1) * 2 ^ (52 - n.log2) := by rw [← Nat.pow_add]; congr 1; omega
    constructor
    · rw [hlow']
      exact Nat.mul_le_mul_right _ hlow
    · rw [hhigh']
      exact Nat.mul_le_mul_right _ hhigh.le

def infinityBits : Nat := 2047 * twoTo 52

/-- The bits of the number nearest to a whole number, without its sign and before they are cut off at infinity. -/
def bitsOf (n : Nat) : Nat := (n.log2 + 1023) * twoTo 52 + (mantissaOf n - twoTo 52)

theorem twoTo_52 : twoTo 52 = 4503599627370496 := rfl

/-- The bits of the number nearest to a whole number. -/
theorem ofQuotient_one (negative : Bool) {n : Nat} (hn : n ≠ 0) :
    ofQuotient negative n 1 = Float.ofBits (UInt64.ofNat
      (if negative then twoTo 63 + min (bitsOf n) infinityBits else min (bitsOf n) infinityBits)) := by
  have hmantissa :
      (if 0 ≤ (n.log2 : Int) - 52 then roundDiv n (1 * twoTo ((n.log2 : Int) - 52).toNat)
        else roundDiv (n * twoTo (-((n.log2 : Int) - 52)).toNat) 1) = mantissaOf n := by
    rw [mantissaOf]
    by_cases hlog : 52 ≤ n.log2
    · rw [if_pos (by omega), if_pos hlog, Nat.one_mul, show ((n.log2 : Int) - 52).toNat = n.log2 - 52 by omega]
      rfl
    · rw [if_neg (by omega), if_neg hlog, roundDiv_one, show (-((n.log2 : Int) - 52)).toNat = 52 - n.log2 by omega]
      rfl
  have hexponent : ((n.log2 : Int) - 52 + 1075).toNat = n.log2 + 1023 := by omega
  have hfull : ¬ mantissaOf n < twoTo 52 := Nat.not_lt.2 (mantissaOf_mem hn).1
  simp only [ofQuotient, if_neg hn, roundingExponent_one hn, hmantissa, if_neg hfull, hexponent]
  rfl

/-- The number nearest to a whole number is finite when its bits are not cut off. -/
theorem isFinite_ofQuotient_one (negative : Bool) {n : Nat} (hn : n ≠ 0) :
    (ofQuotient negative n 1).isFinite = decide (bitsOf n < infinityBits) := by
  have hfield : ∀ b : Nat, b < 2 ^ 64 → exponentField (UInt64.ofNat b).toBitVec = b / twoTo 52 % 2048 := by
    intro b hb
    simp only [exponentField, UInt64.toNat_toBitVec, UInt64.toNat_ofNat', Nat.mod_eq_of_lt hb]
    rfl
  have h63 : twoTo 63 = 9223372036854775808 := rfl
  have h64 : 2 ^ 64 = 18446744073709551616 := rfl
  have hinfinity : infinityBits = 9218868437227405312 := rfl
  rw [ofQuotient_one negative hn, isFinite_ofBits, Bool.eq_iff_iff, bne_iff_ne, decide_eq_true_iff]
  cases negative
  · rw [hfield _ (by simp only [Bool.false_eq_true, if_false]; omega), twoTo_52]
    simp only [Bool.false_eq_true, if_false]
    omega
  · rw [hfield _ (by simp only [if_true]; omega), twoTo_52]
    simp only [if_true]
    omega

end Rounding

section Whole

/-- The least whole number whose nearest double-precision number is infinite. -/
def leastTooLarge : Nat := 2 ^ 1024 - 2 ^ 970

/-- Only the exponent decides, but for the numbers that have the largest one. -/
theorem bitsOf_lt_infinityBits_iff {n : Nat} (hn : n ≠ 0) :
    bitsOf n < infinityBits ↔ n.log2 < 1023 ∨ n.log2 = 1023 ∧ ¬ 2 ^ 53 ≤ mantissaOf n := by
  obtain ⟨hlow, hhigh⟩ := mantissaOf_mem hn
  unfold bitsOf infinityBits
  rw [twoTo_52]
  omega

/-- The bits stay below those of infinity exactly for the numbers that are not too large. -/
theorem bitsOf_lt_iff {n : Nat} (hn : n ≠ 0) : bitsOf n < infinityBits ↔ n < leastTooLarge := by
  rw [bitsOf_lt_infinityBits_iff hn]
  rcases Nat.lt_trichotomy n.log2 1023 with h | h | h
  · exact iff_of_true (.inl h) (lt_trans ((Nat.log2_lt hn).1 h) (by decide +kernel))
  · have hmantissa : mantissaOf n = roundDiv n (2 ^ 971) := by
      rw [mantissaOf, h, if_pos (by decide)]
    have hedge : (2 * 2 ^ 53 - 1) * 2 ^ 971 = 2 * leastTooLarge := by decide +kernel
    have hpos : 0 < 2 ^ 971 := by decide +kernel
    rw [hmantissa, le_roundDiv_iff hpos (by decide) (by decide), hedge, Nat.not_le, Nat.mul_lt_mul_left (by decide)]
    simp [h]
  · refine iff_of_false (by omega) (fun hlt => ?_)
    have : n.log2 < 1024 := (Nat.log2_lt hn).2 (lt_trans hlt (by decide +kernel))
    omega

/-- A whole number lies past the largest finite double-precision number when it is nearer to the next power of two,
or just as near. -/
theorem ofInt?_eq_none_iff (n : Int) : ofInt? n = none ↔ leastTooLarge ≤ n.natAbs := by
  have hfinite : (ofQuotient (n < 0) n.natAbs 1).isFinite = decide (n.natAbs < leastTooLarge) := by
    by_cases hn : n.natAbs = 0
    · rw [Int.natAbs_eq_zero.1 hn]
      decide +kernel
    · rw [isFinite_ofQuotient_one _ hn, decide_eq_decide]
      exact bitsOf_lt_iff hn
  simp only [ofInt?, hfinite]
  by_cases h : n.natAbs < leastTooLarge
  · simp [h]
  · simp [h, Nat.not_lt.1 h]

end Whole

end Compendium.Number
