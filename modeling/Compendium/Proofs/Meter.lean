import Mathlib.Algebra.BigOperators.Group.List.Basic
import Mathlib.Algebra.Ring.Int.Defs
import Compendium.Meter

/-!
What a meter keeps. Measurements are kept in their order unless the meter is silent; that an instrument is made on the
way adds nothing to another one.
-/
namespace Compendium

def Measurement.added? (name : String) : Measurement → Option Number.Numeral
  | .add n value _ => if n = name then some value else none
  | _ => none

def Measurement.recorded? (name : String) : Measurement → Option Number.Numeral
  | .record n value _ => if n = name then some value else none
  | _ => none

namespace Meter

variable {α : Type} (pick : Measurement → Option α)

def picked (pick : Measurement → Option α) (m : Meter) : List α := m.measured.filterMap pick

theorem picked_note (x : Measurement) (m : Meter) :
    (m.note x).picked pick = m.picked pick ++ if m.silent then [] else (pick x).toList := by
  rw [note]
  cases m.silent
  · cases h : pick x <;> simp [picked, h]
  · simp

@[simp] theorem silent_note (x : Measurement) (m : Meter) : (m.note x).silent = m.silent := by
  rw [note]
  split <;> rfl

@[simp] theorem silent_observe (name description unit : String) (value : Number.Numeral)
    (attributes : Option (List (String × Json))) (m : Meter) :
    (m.observe name description unit value attributes).silent = m.silent := by
  rw [observe, silent_note, histogram]
  split
  · rfl
  · rw [silent_note]

theorem picked_add (name description unit : String) (value : Number.Numeral)
    (attributes : Option (List (String × Json))) (m : Meter)
    (h : pick (.createCounter name description unit) = none) :
    (m.add name description unit value attributes).picked pick =
      m.picked pick ++ if m.silent then [] else (pick (.add name value attributes)).toList := by
  rw [add, picked_note, counter]
  split
  · rfl
  · rw [picked_note, silent_note, h]
    simp [picked]

theorem picked_observe (name description unit : String) (value : Number.Numeral)
    (attributes : Option (List (String × Json))) (m : Meter)
    (h : pick (.createHistogram name description unit) = none) :
    (m.observe name description unit value attributes).picked pick =
      m.picked pick ++ if m.silent then [] else (pick (.record name value attributes)).toList := by
  rw [observe, picked_note, histogram]
  split
  · rfl
  · rw [picked_note, silent_note, h]
    simp [picked]

def added (name : String) (m : Meter) : List Number.Numeral := m.picked (Measurement.added? name)

def recorded (name : String) (m : Meter) : List Number.Numeral := m.picked (Measurement.recorded? name)

/-! Totals. -/

@[simp] theorem silent_add (name description unit : String) (value : Number.Numeral)
    (attributes : Option (List (String × Json))) (m : Meter) :
    (m.add name description unit value attributes).silent = m.silent := by
  rw [add, silent_note, counter]
  split
  · rfl
  · rw [silent_note]

/-- Whole numbers were added to a counter, which come to this together. -/
def Gained (name : String) (total : Int) (m m' : Meter) : Prop :=
  ∃ new : List Int, m'.added name = m.added name ++ new.map .whole ∧ new.sum = total

theorem Gained.refl (name : String) (m : Meter) : Gained name 0 m m := ⟨[], by simp, rfl⟩

theorem Gained.trans {name : String} {total total' : Int} {m m' m'' : Meter} (h : Gained name total m m')
    (h' : Gained name total' m' m'') : Gained name (total + total') m m'' := by
  obtain ⟨new, hnew, rfl⟩ := h
  obtain ⟨new', hnew', rfl⟩ := h'
  exact ⟨new ++ new', by rw [hnew', hnew, List.append_assoc, List.map_append], List.sum_append⟩

theorem gained_add (name description unit : String) (n : Int) {m : Meter} (h : m.silent = false) :
    Gained name n m (m.add name description unit (.whole n) none) := by
  refine ⟨[n], ?_, List.sum_singleton⟩
  rw [added, picked_add _ _ _ _ _ _ _ rfl, h]
  simp [added, Measurement.added?]

/-- What is added to a counter is not added to another one. -/
theorem gained_add_other {name other : String} (hne : other ≠ name) (description unit : String)
    (value : Number.Numeral) (m : Meter) : Gained name 0 m (m.add other description unit value none) := by
  refine ⟨[], ?_, rfl⟩
  rw [added, picked_add _ _ _ _ _ _ _ rfl]
  simp [added, Measurement.added?, hne]

/-- A reindex counts its chunks and its failures. -/
theorem gained_indexed (stored failed : Int) {m : Meter} (h : m.silent = false) :
    Gained "vulnkb_index_chunks_total" stored m (m.indexed stored failed) ∧
      Gained "vulnkb_embedding_failures_total" failed m (m.indexed stored failed) := by
  rw [indexed]
  have hstored := gained_add "vulnkb_index_chunks_total" "Chunks written to the index" "1" stored h
  have hapart := gained_add_other (show "vulnkb_index_chunks_total" ≠ "vulnkb_embedding_failures_total" by decide)
    "Chunks written to the index" "1" (.whole stored) m
  by_cases hfailed : failed = 0
  · rw [if_pos hfailed, hfailed]
    exact ⟨hstored, hapart⟩
  · rw [if_neg hfailed]
    have hsilent := silent_add "vulnkb_index_chunks_total" "Chunks written to the index" "1" (.whole stored) none m
    have hlater := gained_add_other (show "vulnkb_embedding_failures_total" ≠ "vulnkb_index_chunks_total" by decide)
      "Chunks skipped after embedding failure" "1" (.whole failed)
      (m.add "vulnkb_index_chunks_total" "Chunks written to the index" "1" (.whole stored) none)
    have hmissed := gained_add "vulnkb_embedding_failures_total" "Chunks skipped after embedding failure" "1" failed
      (hsilent.trans h)
    have hboth := hstored.trans hlater
    have hlast := hapart.trans hmissed
    rw [Int.add_zero] at hboth
    rw [Int.zero_add] at hlast
    exact ⟨hboth, hlast⟩

@[simp] theorem silent_indexed (stored failed : Int) (m : Meter) : (m.indexed stored failed).silent = m.silent := by
  rw [indexed]
  split <;> simp

end Meter

end Compendium
