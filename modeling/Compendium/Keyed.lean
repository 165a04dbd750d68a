/-! Tables kept as lists of pairs: a new key comes last, and a key keeps its place when its value changes. -/
namespace Compendium.Keyed

variable {K V : Type} [DecidableEq K]

def get? (key : K) (table : List (K × V)) : Option V := (table.find? fun e => e.1 = key).map (·.2)

def has (key : K) (table : List (K × V)) : Bool := table.any fun e => e.1 = key

/-- Replaces the value of a key, or adds it at the end. -/
def put (key : K) (value : V) : List (K × V) → List (K × V)
  | [] => [(key, value)]
  | (k, v) :: r => if k = key then (key, value) :: r else (k, v) :: put key value r

def erase (key : K) (table : List (K × V)) : List (K × V) := table.filter fun e => e.1 ≠ key

def keys (table : List (K × V)) : List K := table.map (·.1)

@[simp] theorem get?_nil (key : K) : get? key ([] : List (K × V)) = none := rfl

theorem get?_cons (key k : K) (v : V) (r : List (K × V)) :
    get? key ((k, v) :: r) = if k = key then some v else get? key r := by
  by_cases h : k = key <;> simp [get?, h]

theorem get?_map (f : K → V) {key : K} {keys : List K} (h : key ∈ keys) :
    get? key (keys.map fun k => (k, f k)) = some (f key) := by
  induction keys with
  | nil => cases h
  | cons k r ih =>
    rw [List.map_cons, get?_cons]
    split
    next hk => rw [hk]
    next hk => exact ih ((List.mem_cons.1 h).resolve_left (Ne.symm hk))

theorem get?_put_self (key : K) (value : V) (table : List (K × V)) : get? key (put key value table) = some value := by
  induction table with
  | nil => simp [put, get?_cons]
  | cons e r ih =>
    obtain ⟨k, v⟩ := e
    by_cases h : k = key <;> simp [put, h, get?_cons, ih]

theorem get?_put_of_ne {key other : K} (value : V) (table : List (K × V)) (h : key ≠ other) :
    get? other (put key value table) = get? other table := by
  induction table with
  | nil => simp [put, get?_cons, h]
  | cons e r ih =>
    obtain ⟨k, v⟩ := e
    by_cases hk : k = key
    · subst hk
      simp [put, get?_cons, h]
    · simp only [put, if_neg hk, get?_cons, ih]

theorem get?_erase_self (key : K) (table : List (K × V)) : get? key (erase key table) = none := by
  simp [get?, erase, List.find?_eq_none]

theorem get?_erase_of_ne {key other : K} (table : List (K × V)) (h : key ≠ other) :
    get? other (erase key table) = get? other table := by
  induction table with
  | nil => rfl
  | cons e r ih =>
    obtain ⟨k, v⟩ := e
    by_cases hk : k = key
    · subst hk
      simp only [erase, ne_eq, decide_not, get?_cons, if_neg h] at ih ⊢
      simpa using ih
    · simp only [erase, ne_eq, decide_not, get?_cons, hk, decide_false, Bool.not_false,
        List.filter_cons_of_pos] at ih ⊢
      rw [ih]

theorem has_iff {key : K} {table : List (K × V)} : has key table = true ↔ key ∈ keys table := by
  simp [has, keys]

theorem get?_eq_none_iff {key : K} {table : List (K × V)} : get? key table = none ↔ key ∉ keys table := by
  simp only [get?, Option.map_eq_none_iff, List.find?_eq_none, decide_eq_true_eq, keys, List.mem_map, not_exists,
    not_and]

theorem mem_of_get?_eq_some {key : K} {value : V} {table : List (K × V)} (h : get? key table = some value) :
    (key, value) ∈ table := by
  obtain ⟨e, he, rfl⟩ := Option.map_eq_some_iff.1 h
  have hk : e.1 = key := by simpa using List.find?_some he
  exact hk ▸ List.mem_of_find?_eq_some he

/-- Where the keys differ, a key has the value that stands beside it. -/
theorem get?_eq_some_iff {key : K} {value : V} {table : List (K × V)} (hn : (keys table).Nodup) :
    get? key table = some value ↔ (key, value) ∈ table := by
  refine ⟨mem_of_get?_eq_some, fun h => ?_⟩
  induction table with
  | nil => cases h
  | cons e r ih =>
    obtain ⟨k, v⟩ := e
    rw [keys, List.map_cons, List.nodup_cons] at hn
    rw [get?_cons]
    by_cases hk : k = key
    · subst hk
      cases h with
      | head => simp
      | tail _ h => exact absurd (List.mem_map_of_mem h) hn.1
    · rw [if_neg hk]
      cases h with
      | head => exact absurd rfl hk
      | tail _ h => exact ih hn.2 h

/-- A new key comes last. -/
theorem put_of_not_mem {key : K} (value : V) {table : List (K × V)} (h : key ∉ keys table) :
    put key value table = table ++ [(key, value)] := by
  induction table with
  | nil => rfl
  | cons e r ih =>
    simp only [keys, List.map_cons, List.mem_cons, not_or] at h
    rw [put, if_neg (Ne.symm h.1), ih h.2, List.cons_append]

/-- A key that is there keeps its place. -/
theorem put_of_mem {key : K} (value : V) {table : List (K × V)} (hn : (keys table).Nodup) (h : key ∈ keys table) :
    put key value table = table.map fun e => if e.1 = key then (key, value) else e := by
  induction table with
  | nil => cases h
  | cons e r ih =>
    rw [keys, List.map_cons, List.nodup_cons] at hn
    by_cases hk : e.1 = key
    · subst hk
      have hr : ∀ d ∈ r, d.1 ≠ e.1 := fun d hd he => hn.1 (he ▸ List.mem_map_of_mem hd)
      rw [put, if_pos rfl, List.map_cons, if_pos rfl, List.map_congr_left fun d hd => if_neg (hr d hd), List.map_id']
    · have h' : key ∈ keys r := by simpa [keys, Ne.symm hk] using h
      rw [put, if_neg hk, List.map_cons, if_neg hk, ih hn.2 h']

/-- A key that is there keeps its place. -/
theorem keys_put_of_mem {key : K} (value : V) {table : List (K × V)} (h : key ∈ keys table) :
    keys (put key value table) = keys table := by
  induction table with
  | nil => cases h
  | cons e r ih =>
    by_cases hk : e.1 = key
    · simp [put, keys, hk]
    · have h' : key ∈ keys r := by simpa [keys, Ne.symm hk] using h
      rw [put, if_neg hk, keys, List.map_cons, ← keys, ih h', keys, keys, List.map_cons]

theorem keys_put_of_not_mem {key : K} (value : V) {table : List (K × V)} (h : key ∉ keys table) :
    keys (put key value table) = keys table ++ [key] := by
  simp [put_of_not_mem value h, keys]

theorem nodup_keys_put {key : K} {value : V} {table : List (K × V)} (hn : (keys table).Nodup) :
    (keys (put key value table)).Nodup := by
  by_cases h : key ∈ keys table
  · rwa [keys_put_of_mem value h]
  · rw [keys_put_of_not_mem value h, List.nodup_append]
    exact ⟨hn, by simp, fun a ha b hb => by rintro rfl; exact h (List.mem_singleton.1 hb ▸ ha)⟩

theorem nodup_keys_erase {key : K} {table : List (K × V)} (hn : (keys table).Nodup) :
    (keys (erase key table)).Nodup :=
  hn.sublist (List.filter_sublist.map _)

/-- After a key is set the pairs are the new one and the old ones of other keys. -/
theorem mem_put_iff {key : K} {value : V} {table : List (K × V)} (hn : (keys table).Nodup) {e : K × V} :
    e ∈ put key value table ↔ e = (key, value) ∨ e ∈ table ∧ e.1 ≠ key := by
  obtain ⟨k, v⟩ := e
  rw [← get?_eq_some_iff (nodup_keys_put hn), ← get?_eq_some_iff hn]
  by_cases hk : key = k
  · subst hk
    simp [get?_put_self, eq_comm]
  · simp [get?_put_of_ne value table hk, Ne.symm hk]

theorem erase_of_not_mem {key : K} {table : List (K × V)} (h : key ∉ keys table) : erase key table = table :=
  List.filter_eq_self.2 fun e he => by simpa using fun hk : e.1 = key => h (hk ▸ List.mem_map_of_mem he)

theorem erase_cons_self (key : K) (value : V) (r : List (K × V)) : erase key ((key, value) :: r) = erase key r :=
  List.filter_cons_of_neg (by simp)

theorem erase_cons_of_ne {key : K} {e : K × V} (r : List (K × V)) (h : e.1 ≠ key) :
    erase key (e :: r) = e :: erase key r :=
  List.filter_cons_of_pos (by simp [h])

/-- Setting a key is leaving it out and adding it anew, but for the order. -/
theorem put_perm {key : K} (value : V) {table : List (K × V)} (hn : (keys table).Nodup) :
    (put key value table).Perm ((key, value) :: erase key table) := by
  induction table with
  | nil => exact .refl _
  | cons e r ih =>
    obtain ⟨k, v⟩ := e
    rw [keys, List.map_cons, List.nodup_cons] at hn
    by_cases hk : k = key
    · subst hk
      rw [put, if_pos rfl, erase_cons_self, erase_of_not_mem hn.1]
    · rw [put, if_neg hk, erase_cons_of_ne r hk]
      exact ((ih hn.2).cons (k, v)).trans (.swap _ _ _)

theorem mem_keys_put_iff {key k : K} {value : V} {table : List (K × V)} :
    k ∈ keys (put key value table) ↔ k = key ∨ k ∈ keys table := by
  by_cases h : key ∈ keys table
  · rw [keys_put_of_mem value h]
    exact ⟨.inr, fun hk => hk.elim (fun hk => hk ▸ h) id⟩
  · rw [keys_put_of_not_mem value h, List.mem_append, List.mem_singleton, or_comm]

theorem mem_keys_erase_iff {key k : K} {table : List (K × V)} :
    k ∈ keys (erase key table) ↔ k ∈ keys table ∧ k ≠ key := by
  simp only [keys, erase, List.mem_map, List.mem_filter, decide_eq_true_eq]
  constructor
  · rintro ⟨e, ⟨he, hk⟩, rfl⟩
    exact ⟨⟨e, he, rfl⟩, hk⟩
  · rintro ⟨⟨e, he, rfl⟩, hk⟩
    exact ⟨e, ⟨he, hk⟩, rfl⟩

theorem mem_put {key : K} {value : V} {table : List (K × V)} {e : K × V} (h : e ∈ put key value table) :
    e = (key, value) ∨ e ∈ table := by
  induction table with
  | nil => exact .inl (List.mem_singleton.1 h)
  | cons d r ih =>
    rw [put] at h
    split at h
    · rcases List.mem_cons.1 h with h | h
      · exact .inl h
      · exact .inr (List.mem_cons_of_mem d h)
    · rcases List.mem_cons.1 h with rfl | h
      · exact .inr List.mem_cons_self
      · exact (ih h).imp id (List.mem_cons_of_mem d)

theorem forall_mem_put {key : K} {value : V} {table : List (K × V)} {P : K × V → Prop} (hv : P (key, value))
    (ht : ∀ e ∈ table, P e) : ∀ e ∈ put key value table, P e := fun e he => by
  rcases mem_put he with rfl | he
  · exact hv
  · exact ht e he

end Compendium.Keyed
