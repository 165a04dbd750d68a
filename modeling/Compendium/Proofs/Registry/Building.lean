import Mathlib.Data.List.Nodup
import Mathlib.Data.List.Range
import Compendium.Registry

/-!
What asking a registry for a name does. The name stands for what was given or built under it; else its factory is
run, which may ask for other names first and go by what it gets. Whatever the factories do, each of them goes through
at most once for a name, and the parts are kept in the order in which they were made.
-/
namespace Compendium

variable {α β : Type}

def Happening.made? (h : Happening) : Option (String × Part) :=
  if h.event = "built" ∧ h.failure.isNone then h.name.map fun name => (name, h.part) else none

def Happening.entered? (h : Happening) : Option (String × Part) :=
  if h.event = "enter" ∧ h.failure.isNone then h.name.map fun name => (name, h.part) else none

namespace Registry

def runOn (work : Job α) (r : Registry) : Except Fault α × Registry := work.run.run r

@[simp] theorem runOn_pure (a : α) (r : Registry) : runOn (pure a) r = (.ok a, r) := rfl
@[simp] theorem runOn_throw (e : Fault) (r : Registry) : runOn (throw e : Job α) r = (.error e, r) := rfl
@[simp] theorem runOn_get (r : Registry) : runOn (get : Job Registry) r = (.ok r, r) := rfl
@[simp] theorem runOn_set (r r' : Registry) : runOn (set r' : Job Unit) r = (.ok (), r') := rfl
@[simp] theorem runOn_modify (f : Registry → Registry) (r : Registry) :
    runOn (modify f : Job Unit) r = (.ok (), f r) := rfl

@[simp] theorem runOn_ofExcept (o : Except Fault α) (r : Registry) : runOn (ofExcept o) r = (o, r) := by
  cases o <;> rfl

@[simp] theorem runOn_attempt (work : Job α) (r : Registry) :
    runOn (attempt work) r = (.ok (runOn work r).1, (runOn work r).2) := rfl

theorem runOn_bind (x : Job α) (f : α → Job β) (r : Registry) :
    runOn (x >>= f) r =
      match runOn x r with
      | (.ok a, s) => runOn (f a) s
      | (.error e, s) => (.error e, s) := by
  simp only [runOn, ExceptT.run_bind, StateT.run_bind]
  rcases x.run.run r with ⟨o, s⟩
  cases o <;> rfl

def happening (r : Registry) (name : Option String) (p : Part) (event : String) : Happening :=
  ⟨p.blueprint.tag, event, name, p, r.breaks r.events p event⟩

def noting (r : Registry) (hs : List Happening) : Registry := { r with events := r.events ++ hs }

theorem runOn_happen (name : Option String) (p : Part) (event : String) (r : Registry) :
    runOn (happen name p event) r =
      ((r.breaks r.events p event).elim (.ok ()) .error, r.noting [r.happening name p event]) := by
  simp only [happen, runOn_bind, runOn_get, runOn_set, noting, happening]
  cases r.breaks r.events p event <;> rfl

theorem runOn_build (b : Blueprint) (name : Option String) (r : Registry) :
    runOn (build b name) r =
      let p : Part := ⟨b, r.count⟩
      let s := r.noting [r.happening name p "built"]
      match r.breaks r.events p "built" with
      | none => (.ok p, { s with count := r.count + 1 })
      | some e => (.error e, s) := by
  simp only [build, runOn_bind, runOn_get, runOn_happen]
  cases r.breaks r.events ⟨b, r.count⟩ "built" <;> rfl

/-- Between two registries some factories went through, and nothing was entered, left, closed or given. -/
structure Worked (made : List (String × Part)) (r s : Registry) : Prop where
  events : ∃ hs, s.events = r.events ++ hs ∧ hs.filterMap Happening.made? = made ∧
    hs.filterMap Happening.entered? = []
  serials : made.map (fun e => e.2.serial) = List.range' r.count made.length
  count : s.count = r.count + made.length
  fixed : s.fixed = r.fixed
  entered : s.entered = r.entered
  complaints : s.complaints = r.complaints
  breaks : s.breaks = r.breaks

theorem Worked.refl (r : Registry) : Worked [] r r :=
  ⟨⟨[], by simp⟩, rfl, rfl, rfl, rfl, rfl, rfl⟩

theorem Worked.trans {made made' : List (String × Part)} {r s t : Registry} (h : Worked made r s)
    (h' : Worked made' s t) : Worked (made ++ made') r t where
  events := by
    obtain ⟨hs, he, hm, hn⟩ := h.events
    obtain ⟨hs', he', hm', hn'⟩ := h'.events
    exact ⟨hs ++ hs', by rw [he', he, List.append_assoc], by rw [List.filterMap_append, hm, hm'],
      by rw [List.filterMap_append, hn, hn']; rfl⟩
  serials := by
    rw [List.map_append, h.serials, h'.serials, h.count, List.length_append, List.range'_append_1]
  count := by
    rw [h'.count, h.count, List.length_append, Nat.add_assoc]
  fixed := h'.fixed.trans h.fixed
  entered := h'.entered.trans h.entered
  complaints := h'.complaints.trans h.complaints
  breaks := h'.breaks.trans h.breaks

/-- The parts that are kept are not told apart by `Worked`. -/
theorem Worked.keeping {made : List (String × Part)} {r s : Registry} (h : Worked made r s)
    (built : List (String × Part)) : Worked made r { s with built := built } :=
  ⟨h.events, h.serials, h.count, h.fixed, h.entered, h.complaints, h.breaks⟩

/-- What a name stands for without a factory being run. -/
def standing (name : String) (r : Registry) : Option Item :=
  (Keyed.get? name r.fixed).or ((Keyed.get? name r.built).map .part)

/-- What came of asking for a name while some factories were at work: the parts that were made on the way are kept
behind the others, under names of their own. -/
structure Found (busy : List String) (name : String) (made : List (String × Part)) (r : Registry)
    (o : Except Fault (Option Item)) (s : Registry) : Prop where
  worked : Worked made r s
  built : s.built = r.built ++ made
  names : (Keyed.keys s.built).Nodup
  free : ∀ e ∈ made, e.1 ∉ busy
  answer : ∀ found, o = .ok found → found = s.standing name

theorem Found.unchanged {busy : List String} {name : String} {r : Registry} {o : Except Fault (Option Item)}
    (hn : (Keyed.keys r.built).Nodup) (h : ∀ found, o = .ok found → found = r.standing name) :
    Found busy name [] r o r :=
  ⟨Worked.refl r, (List.append_nil _).symm, hn, nofun, h⟩

/-- Following a recipe, when asking for a name does what it should: the parts made on the way are kept, and a part
that comes out is made last. -/
theorem runOn_follow {find : String → Job (Option Item)} {busy : List String}
    (hfind : ∀ other r, (Keyed.keys r.built).Nodup →
      ∃ made, Found busy other made r (runOn (find other) r).1 (runOn (find other) r).2)
    (name : String) (recipe : Recipe) :
    ∀ r, (Keyed.keys r.built).Nodup → ∃ inner, ∃ o s, runOn (follow find name recipe) r = (o, s) ∧
      s.built = r.built ++ inner ∧ (Keyed.keys s.built).Nodup ∧ (∀ e ∈ inner, e.1 ∉ busy) ∧
      match o with
      | .ok p => Worked (inner ++ [(name, p)]) r s
      | .error _ => Worked inner r s := by
  induction recipe with
  | make b =>
    intro r hn
    have hrun := runOn_build b (some name) r
    refine ⟨[], _, _, hrun, ?_⟩
    cases hb : r.breaks r.events ⟨b, r.count⟩ "built" with
    | none =>
      refine ⟨(List.append_nil _).symm, hn, nofun, ⟨_, rfl, ?_, ?_⟩, rfl, rfl, rfl, rfl, rfl, rfl⟩
      · simp [happening, Happening.made?, hb]
      · simp [happening, Happening.entered?]
    | some e =>
      refine ⟨(List.append_nil _).symm, hn, nofun, ⟨_, rfl, ?_, ?_⟩, rfl, rfl, rfl, rfl, rfl, rfl⟩
      · simp [happening, Happening.made?, hb]
      · simp [happening, Happening.entered?]
  | fail e => exact fun r hn => ⟨[], _, _, rfl, (List.append_nil _).symm, hn, nofun, Worked.refl r⟩
  | ask other preset next ih =>
    intro r hn
    obtain ⟨made, hfound⟩ := hfind other r hn
    obtain ⟨inner, o, s, hrun, hbuilt, hnames, hfree, hworked⟩ :=
      ih ((runOn (find other) r).1.map fun found => found.getD preset) (runOn (find other) r).2 hfound.names
    refine ⟨made ++ inner, o, s, ?_, ?_, hnames, ?_, ?_⟩
    · simp only [follow, runOn_bind, runOn_attempt]
      exact hrun
    · rw [hbuilt, hfound.built, List.append_assoc]
    · intro e he
      rcases List.mem_append.1 he with he | he
      · exact hfound.free e he
      · exact hfree e he
    · cases o with
      | ok p =>
        show Worked (made ++ inner ++ [(name, p)]) r s
        rw [List.append_assoc]
        exact hfound.worked.trans hworked
      | error e => exact hfound.worked.trans hworked

/-- Asking for a name. A factory that is run finds no part under its name, neither before it nor after what it asked
for, since none of the factories at work is run again; so its part comes last. -/
theorem runOn_find? (depth : Nat) : ∀ (busy : List String) (name : String) (r : Registry),
    (Keyed.keys r.built).Nodup →
      ∃ made, Found busy name made r (runOn (find? depth busy name) r).1 (runOn (find? depth busy name) r).2 := by
  induction depth with
  | zero => exact fun busy name r hn => ⟨[], Found.unchanged hn nofun⟩
  | succ depth ih =>
    intro busy name r hn
    cases hfixed : Keyed.get? name r.fixed with
    | some item =>
      refine ⟨[], ?_⟩
      simp only [find?, runOn_bind, runOn_get, hfixed, runOn_pure]
      exact Found.unchanged hn fun found h => by
        cases h
        simp [standing, hfixed]
    | none =>
      cases hbuilt : Keyed.get? name r.built with
      | some p =>
        refine ⟨[], ?_⟩
        simp only [find?, runOn_bind, runOn_get, hfixed, hbuilt, runOn_pure]
        exact Found.unchanged hn fun found h => by
          cases h
          simp [standing, hfixed, hbuilt]
      | none =>
        cases hfactory : Keyed.get? name r.factories with
        | none =>
          refine ⟨[], ?_⟩
          simp only [find?, runOn_bind, runOn_get, hfixed, hbuilt, hfactory, runOn_pure]
          exact Found.unchanged hn fun found h => by
            cases h
            simp [standing, hfixed, hbuilt]
        | some f =>
          simp only [find?, runOn_bind, runOn_get, hfixed, hbuilt, hfactory]
          by_cases hbusy : busy.contains name = true
          · refine ⟨[], ?_⟩
            simp only [hbusy, if_true, runOn_bind, runOn_throw]
            exact Found.unchanged hn nofun
          · simp only [hbusy, Bool.false_eq_true, if_false, runOn_bind]
            obtain ⟨inner, o, s, hrun, hkept, hnames, hfree, hworked⟩ :=
              runOn_follow (fun other => ih (name :: busy) other) name (f r.events) r hn
            have hinner : ∀ e ∈ inner, e.1 ∉ busy := fun e he h => hfree e he (List.mem_cons_of_mem _ h)
            rw [hrun]
            cases o with
            | error e => exact ⟨inner, hworked, hkept, hnames, hinner, nofun⟩
            | ok p =>
              have hnew : name ∉ Keyed.keys s.built := by
                rw [hkept, Keyed.keys, List.map_append, List.mem_append, not_or]
                refine ⟨Keyed.get?_eq_none_iff.1 hbuilt, fun h => ?_⟩
                obtain ⟨e, he, hname⟩ := List.mem_map.1 h
                exact hfree e he (hname ▸ List.mem_cons_self)
              refine ⟨inner ++ [(name, p)], hworked.keeping _, ?_, Keyed.nodup_keys_put hnames, ?_, ?_⟩
              · rw [← List.append_assoc, ← hkept]
                exact Keyed.put_of_not_mem p hnew
              · intro e he
                rcases List.mem_append.1 he with he | he
                · exact hinner e he
                · rw [List.mem_singleton.1 he]
                  simpa using hbusy
              · intro found h
                cases h
                have hs : Keyed.get? name s.fixed = none := hworked.fixed ▸ hfixed
                simp [standing, hs, Keyed.get?_put_self]

/-- A name that stands for something is answered with it, and nothing happens. -/
theorem runOn_getOr_standing {name : String} {r : Registry} {item : Item} (h : r.standing name = some item)
    (preset : Item) : runOn (getOr name preset) r = (.ok item, r) := by
  simp only [getOr, find?, runOn_bind, runOn_get]
  cases hfixed : Keyed.get? name r.fixed with
  | some given =>
    simp only [standing, hfixed, Option.some_or, Option.some.injEq] at h
    subst h
    rfl
  | none =>
    simp only [standing, hfixed, Option.none_or, Option.map_eq_some_iff] at h
    obtain ⟨p, hp, rfl⟩ := h
    simp only [hp]
    rfl

/-- What comes of asking for a name: the parts made on the way are kept, under names that were not there. -/
theorem runOn_getOr (name : String) (preset : Item) {r : Registry} (hn : (Keyed.keys r.built).Nodup) :
    ∃ made o s, runOn (getOr name preset) r = (o, s) ∧ Worked made r s ∧ s.built = r.built ++ made ∧
      (Keyed.keys s.built).Nodup ∧ ∀ item, o = .ok item → item = (s.standing name).getD preset := by
  obtain ⟨made, h⟩ := runOn_find? (r.factories.length + 1) [] name r hn
  simp only [getOr, runOn_bind, runOn_get]
  rcases hrun : runOn (find? (r.factories.length + 1) [] name) r with ⟨o, s⟩
  rw [hrun] at h
  cases o with
  | ok found =>
    refine ⟨made, _, s, rfl, h.worked, h.built, h.names, fun item hi => ?_⟩
    cases hi
    rw [h.answer found rfl]
  | error e => exact ⟨made, _, s, rfl, h.worked, h.built, h.names, nofun⟩

end Registry

end Compendium
