import Mathlib.Data.Int.ConditionallyCompleteOrder
import Mathlib.Data.Prod.Lex
import Mathlib.Order.ConditionallyCompleteLattice.Basic
import Mathlib.Order.WithBot
import Compendium.Number.Scalar

/-!
Comparing numbers by their places in a linear order. Floating-point numbers are compared by kind, exponent and
mantissa; the two zeros stand at one place, and what is no number compares with nothing.
-/
namespace Compendium.Number

/-- Places in a linear order that decide which number is less; one at the bottom is neither less nor greater. -/
structure Scale (K P : Type) [Scalar K] [LinearOrder P] [OrderBot P] where
  place : K → P
  lt_iff : ∀ a b, Scalar.lt a b = true ↔ ⊥ < place a ∧ place a < place b

namespace Scale

variable {K P : Type} [Scalar K] [LinearOrder P] [OrderBot P] (sc : Scale K P)

theorem not_lt_eq {a : K} (ha : ⊥ < sc.place a) (b : K) :
    (!Scalar.lt a b) = decide (sc.place b ≤ sc.place a) := by
  rw [Bool.eq_iff_iff, Bool.not_eq_true', ← Bool.not_eq_true, sc.lt_iff, decide_eq_true_iff]
  simp [ha]

/-- Numbers at one place are below the same numbers. -/
theorem lt_congr {a b : K} (h : sc.place a = sc.place b) (c : K) : Scalar.lt a c = Scalar.lt b c := by
  rw [Bool.eq_iff_iff, sc.lt_iff, sc.lt_iff, h]

end Scale

/-- Kind, exponent and mantissa; of two numbers the first of these in which they differ decides. -/
abbrev Rung : Type := ℤ ×ₗ ℤ ×ₗ ℤ

def rung (kind exponent mantissa : ℤ) : Rung := toLex (kind, toLex (exponent, mantissa))

theorem rung_lt_iff {k k' e e' m m' : ℤ} :
    rung k e m < rung k' e' m' ↔ k < k' ∨ k = k' ∧ (e < e' ∨ e = e' ∧ m < m') := by
  simp [rung, Prod.Lex.toLex_lt_toLex]

theorem rung_eq_iff {k k' e e' m m' : ℤ} : rung k e m = rung k' e' m' ↔ k = k' ∧ e = e' ∧ m = m' := by
  simp [rung]

theorem compares_rung (k e e' : ℤ) (m m' : ℕ) (o : Ordering) :
    o.Compares (rung k e m) (rung k e' m') ↔ (compare e e').then (compare m m') = o := by
  cases o with
  | lt =>
    rw [Ordering.compares_lt, rung_lt_iff, Ordering.then_eq_lt, compare_lt_iff_lt, compare_lt_iff_lt, compare_eq_iff_eq]
    omega
  | eq =>
    rw [Ordering.compares_eq, rung_eq_iff, Ordering.then_eq_eq, compare_eq_iff_eq, compare_eq_iff_eq]
    omega
  | gt =>
    rw [Ordering.compares_gt, gt_iff_lt, rung_lt_iff, Ordering.then_eq_gt, compare_gt_iff_gt, compare_gt_iff_gt,
      compare_eq_iff_eq]
    omega

/-- Below zero the greater exponent and mantissa come first. -/
theorem compares_rung_neg (k e e' : ℤ) (m m' : ℕ) (o : Ordering) :
    o.Compares (rung k (-e) (-m)) (rung k (-e') (-m')) ↔ ((compare e e').then (compare m m')).swap = o := by
  rw [← Ordering.swap_inj, Ordering.swap_swap, ← compares_rung k]
  cases o with
  | lt =>
    rw [Ordering.compares_lt, Ordering.swap, Ordering.compares_gt, gt_iff_lt, rung_lt_iff, rung_lt_iff]
    omega
  | eq =>
    rw [Ordering.compares_eq, Ordering.swap, Ordering.compares_eq, rung_eq_iff, rung_eq_iff]
    omega
  | gt =>
    rw [Ordering.compares_gt, gt_iff_lt, Ordering.swap, Ordering.compares_lt, rung_lt_iff, rung_lt_iff]
    omega

theorem compares_coe (o : Ordering) (a b : Rung) : o.Compares (a : WithBot Rung) b ↔ o.Compares a b := by
  cases o <;> simp

open Float.Model (UnpackedFloat)

/-- The place of an unpacked number; the kinds from below are negative infinity, negative, zero, positive, infinity. -/
def unpackedPlace : UnpackedFloat → WithBot Rung
  | .notANumber => ⊥
  | .infinity .negative => rung (-2) 0 0
  | .finite .negative m e _ => rung (-1) (-e) (-m)
  | .zero _ => rung 0 0 0
  | .finite .positive m e _ => rung 1 e m
  | .infinity .positive => rung 2 0 0

inductive Weighed : WithBot Rung → WithBot Rung → Option Ordering → Prop where
  | left (p : WithBot Rung) : Weighed ⊥ p none
  | right (p : WithBot Rung) : Weighed p ⊥ none
  | both {p q : Rung} {o : Ordering} (h : o.Compares p q) : Weighed p q (some o)

/-- Comparing two numbers gives the order of their places. -/
theorem weighed_compare (a b : UnpackedFloat) : Weighed (unpackedPlace a) (unpackedPlace b) (a.compare b) := by
  rcases a with (_ | _) | _ | s | ⟨_ | _, m, e, hm⟩ <;> rcases b with (_ | _) | _ | s' | ⟨_ | _, m', e', hm'⟩
  case finite.negative.finite.negative => exact .both ((compares_rung_neg ..).2 rfl)
  case finite.positive.finite.positive => exact .both ((compares_rung ..).2 rfl)
  -- in all other cases one of the two is no number, or the kinds decide
  all_goals first
    | exact .left _
    | exact .right _
    | exact .both (o := .lt) (rung_lt_iff.2 (.inl (by decide)))
    | exact .both (o := .gt) (rung_lt_iff.2 (.inl (by decide)))
    | exact .both (o := .eq) rfl

/-- Comparing gives an outcome exactly if both numbers have a place, and these places compare so. -/
theorem compare_eq_some_iff (a b : UnpackedFloat) (o : Ordering) :
    a.compare b = some o ↔
      ⊥ < unpackedPlace a ∧ ⊥ < unpackedPlace b ∧ o.Compares (unpackedPlace a) (unpackedPlace b) := by
  have hweighed := weighed_compare a b
  generalize unpackedPlace a = p at hweighed ⊢
  generalize unpackedPlace b = q at hweighed ⊢
  generalize a.compare b = outcome at hweighed ⊢
  cases hweighed with
  | left p => exact iff_of_false nofun fun h => lt_irrefl _ h.1
  | right p => exact iff_of_false nofun fun h => lt_irrefl _ h.2.1
  | both h =>
    constructor
    · intro he
      cases he
      exact ⟨WithBot.bot_lt_coe _, WithBot.bot_lt_coe _, (compares_coe ..).2 h⟩
    · intro h'
      exact congrArg some (h.inj ((compares_coe ..).1 h'.2.2))

theorem unpacked_lt_iff (a b : UnpackedFloat) :
    a.lt b = true ↔ ⊥ < unpackedPlace a ∧ unpackedPlace a < unpackedPlace b := by
  change (a.compare b == some .lt) = true ↔ _
  rw [beq_iff_eq, compare_eq_some_iff, Ordering.compares_lt]
  constructor
  · intro h
    exact ⟨h.1, h.2.2⟩
  · intro h
    exact ⟨h.1, h.1.trans h.2, h.2⟩

theorem unpacked_beq_iff (a b : UnpackedFloat) :
    a.beq b = true ↔ ⊥ < unpackedPlace a ∧ unpackedPlace a = unpackedPlace b := by
  change (a.compare b == some .eq) = true ↔ _
  rw [beq_iff_eq, compare_eq_some_iff, Ordering.compares_eq]
  constructor
  · intro h
    exact ⟨h.1, h.2.2⟩
  · intro h
    exact ⟨h.1, h.2 ▸ h.1, h.2⟩

def floatScale : Scale Float (WithBot Rung) where
  place x := unpackedPlace x.toModel.unpack
  lt_iff a b := by
    rw [← unpacked_lt_iff]
    change decide (decide (a.toModel.unpack.lt b.toModel.unpack = true) = true) = true ↔ _
    rw [decide_eq_true_iff, decide_eq_true_iff]

/-- Every number is above the bottom. -/
theorem bot_lt_floatPlace {x : Float} (h : x.isNaN = false) : ⊥ < floatScale.place x := by
  change x.toModel.unpack.isNaN = false at h
  change ⊥ < unpackedPlace x.toModel.unpack
  cases hx : x.toModel.unpack with
  | infinity s => cases s <;> exact WithBot.bot_lt_coe _
  | notANumber =>
    rw [hx] at h
    cases h
  | zero s => exact WithBot.bot_lt_coe _
  | finite s m e hm => cases s <;> exact WithBot.bot_lt_coe _

/-- Equal numbers stand at one place; the undefined number equals nothing. -/
theorem beq_iff_floatPlace {x y : Float} :
    (x == y) = true ↔ ⊥ < floatScale.place x ∧ floatScale.place x = floatScale.place y :=
  unpacked_beq_iff _ _

end Compendium.Number
