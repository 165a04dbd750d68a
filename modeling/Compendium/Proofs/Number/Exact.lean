import Mathlib.Algebra.Order.Field.Basic
import Compendium.Number.Scalar

/-! Arithmetic in an ordered field: exact, or with the outcome of every operation rounded. -/
namespace Compendium.Number

variable {K : Type} [LinearOrder K] [Field K]

namespace Exact

scoped instance scalar : Scalar K where
  ofNat n := n
  lt a b := decide (a < b)
  le a b := decide (a ≤ b)

@[simp] theorem ofNat_eq (n : Nat) : (Scalar.ofNat n : K) = n := rfl
@[simp] theorem lt_eq (a b : K) : Scalar.lt a b = decide (a < b) := rfl
@[simp] theorem le_eq (a b : K) : Scalar.le a b = decide (a ≤ b) := rfl

theorem ratio_eq (a b : Nat) : (Scalar.ratio a b : K) = a / b := rfl

theorem larger_eq_max (a b : K) : Scalar.larger a b = max a b := by
  rcases lt_or_ge a b with h | h
  · simp [Scalar.larger, h, h.le]
  · simp [Scalar.larger, h, h.not_gt]

theorem smaller_eq_min (a b : K) : Scalar.smaller a b = min a b := by
  rcases lt_or_ge b a with h | h
  · simp [Scalar.smaller, h, h.le]
  · simp [Scalar.smaller, h, h.not_gt]

/-- In exact arithmetic the order of summation does not show. -/
theorem sum_eq (xs : List K) : Scalar.sum xs = xs.sum := by
  rw [Scalar.sum, List.sum_eq_foldl, ofNat_eq, Nat.cast_zero]

end Exact

/-- Rounding that keeps the order of numbers and leaves whole numbers of up to 53 bits as they are. -/
structure Rounding (K : Type) [LinearOrder K] [Field K] where
  round : K → K
  mono : Monotone round
  whole : ∀ n : Nat, n ≤ 2 ^ 53 → round n = n

/-- Exact arithmetic rounds nothing. -/
instance : Inhabited (Rounding K) := ⟨⟨id, monotone_id, fun _ _ => rfl⟩⟩

namespace Rounding

variable (r : Rounding K)

@[reducible] def scalar : Scalar K where
  add a b := r.round (a + b)
  sub a b := r.round (a - b)
  mul a b := r.round (a * b)
  div a b := r.round (a / b)
  ofNat n := r.round n
  lt a b := decide (a < b)
  le a b := decide (a ≤ b)

@[simp] theorem round_zero : r.round 0 = 0 := by simpa using r.whole 0 (Nat.zero_le _)
@[simp] theorem round_one : r.round 1 = 1 := by simpa using r.whole 1 Nat.one_le_two_pow

/-- What lies between whole numbers stays between them. -/
theorem round_mem {x : K} {n : Nat} (hn : n ≤ 2 ^ 53) (h0 : 0 ≤ x) (hx : x ≤ n) :
    0 ≤ r.round x ∧ r.round x ≤ n := by
  constructor
  · simpa using r.mono h0
  · simpa [r.whole n hn] using r.mono hx

theorem round_pos [IsStrictOrderedRing K] {b : Nat} (hb : 0 < b) : 0 < r.round b := by
  have h1 : (1 : K) ≤ b := by exact_mod_cast hb
  exact zero_lt_one.trans_le (r.round_one ▸ r.mono h1)

/-- The whole of a whole is one. -/
theorem ratio_self [IsStrictOrderedRing K] {b : Nat} (hb : 0 < b) :
    letI := r.scalar
    Scalar.ratio b b = (1 : K) := by
  change r.round (r.round b / r.round b) = 1
  rw [div_self (r.round_pos hb).ne', r.round_one]

/-- A part of a whole comes to no more than one, however it is rounded. -/
theorem ratio_mem [IsStrictOrderedRing K] {a b : Nat} (h : a ≤ b) (hb : 0 < b) :
    letI := r.scalar
    (0 : K) ≤ Scalar.ratio a b ∧ Scalar.ratio a b ≤ (1 : K) := by
  have hpos : 0 < r.round b := r.round_pos hb
  have ha : 0 ≤ r.round a := by simpa using r.mono (Nat.cast_nonneg (α := K) a)
  have hle : r.round a ≤ r.round b := r.mono (Nat.cast_le.2 h)
  have hquotient := r.round_mem (n := 1) Nat.one_le_two_pow (div_nonneg ha hpos.le)
    (by simpa using (div_le_one hpos).2 hle)
  rw [Nat.cast_one] at hquotient
  exact hquotient

end Rounding

end Compendium.Number
