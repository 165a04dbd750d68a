import Compendium.Fault
import Compendium.Json.Basic

/-! What reading a store gives: an outcome, and notices of what was found damaged on the way. -/
namespace Compendium

structure Notice where
  origin : String
  message : String
  fields : List (String × Json)

/-- An outcome with the notices that were given before it. -/
structure Reading (α : Type) where
  notices : List Notice
  outcome : Except Fault α

namespace Reading

variable {α β : Type}

protected def pure (a : α) : Reading α := ⟨[], .ok a⟩

protected def bind (r : Reading α) (f : α → Reading β) : Reading β :=
  match r.outcome with
  | .ok a =>
    let s := f a
    ⟨r.notices ++ s.notices, s.outcome⟩
  | .error e => ⟨r.notices, .error e⟩

instance : Monad Reading where
  pure := Reading.pure
  bind := Reading.bind

def fail (e : Fault) : Reading α := ⟨[], .error e⟩

def ofExcept (outcome : Except Fault α) : Reading α := ⟨[], outcome⟩

def warn (n : Notice) : Reading Unit := ⟨[n], .ok ()⟩

def each (f : α → Reading β) : List α → Reading (List β)
  | [] => Reading.pure []
  | a :: r => do
    let b ← f a
    let bs ← each f r
    return b :: bs

@[simp] theorem outcome_pure (a : α) : (pure a : Reading α).outcome = .ok a := rfl
@[simp] theorem outcome_fail (e : Fault) : (fail e : Reading α).outcome = .error e := rfl
@[simp] theorem outcome_ofExcept (r : Except Fault α) : (ofExcept r).outcome = r := rfl
@[simp] theorem outcome_warn (n : Notice) : (warn n).outcome = .ok () := rfl

@[simp] theorem outcome_bind (r : Reading α) (f : α → Reading β) :
    (r >>= f).outcome = r.outcome >>= fun a => (f a).outcome := by
  obtain ⟨notices, outcome⟩ := r
  cases outcome <;> rfl

@[simp] theorem outcome_map (f : α → β) (r : Reading α) : (f <$> r).outcome = r.outcome.map f := by
  obtain ⟨notices, outcome⟩ := r
  cases outcome <;> rfl

/-- When each single reading succeeds, so does the reading of all. -/
theorem outcome_each {f : α → Reading β} {g : α → β} :
    {xs : List α} → (∀ a ∈ xs, (f a).outcome = .ok (g a)) → (each f xs).outcome = .ok (xs.map g)
  | [], _ => rfl
  | a :: r, h => by
    have ih := outcome_each fun b hb => h b (List.mem_cons_of_mem a hb)
    simp only [each, outcome_bind, h a List.mem_cons_self, ih, outcome_pure, List.map_cons]
    rfl

end Reading

end Compendium
