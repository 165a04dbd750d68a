import Compendium.Proofs.Registry.Building

/-!
The life of a registry. Parts are made and entered as they are asked for, until a cleanup, or the end of a lifespan,
leaves those that were entered and closes those that were made. A ledger is kept of what was made and entered since
the last ending; it is read off what happened to the parts, and not off the tables of the registry. After any acts
the tables agree with it, so that each part has its turn once when all is ended.
-/
namespace Compendium

def Happening.turn (h : Happening) : Option String × Part × String := (h.name, h.part, h.event)

namespace Registry

inductive Act where
  | register (name : String) (f : Factory)
  | fix (name : String) (item : Item)
  | get (name : String) (preset : Item)
  | enter (name : String) (preset : Item)
  | cleanup
  /-- The work of a lifespan is over. -/
  | leave (outcome : Except Fault Unit)

namespace Act

def job : Act → Job Unit
  | .register name f => registerFactory name f
  | .fix name item => Registry.fix name item
  | .get name preset => discard (getOr name preset)
  | .enter name preset => discard (enterOr name preset)
  | .cleanup => Registry.cleanup
  | .leave outcome => lifespan (ofExcept outcome)

def ends : Act → Bool
  | .cleanup | .leave _ => true
  | _ => false

/-- What an ending comes to: a lifespan keeps the outcome of its work. -/
def outcome : Act → Except Fault Unit
  | .leave outcome => outcome
  | _ => .ok ()

end Act

/-- The parts made and the parts entered since the last ending, in order. -/
structure Ledger where
  made : List (String × Part) := []
  entered : List (String × Part) := []

namespace Ledger

def add (l : Ledger) (hs : List Happening) : Ledger :=
  ⟨l.made ++ hs.filterMap Happening.made?, l.entered ++ hs.filterMap Happening.entered?⟩

/-- What a name stands for by the ledger: what was given goes before what was made. -/
def standing (l : Ledger) (name : String) (fixed : List (String × Item)) : Option Item :=
  (Keyed.get? name fixed).or ((Keyed.get? name l.made).map .part)

end Ledger

def step (s : Ledger × Registry) (act : Act) : Ledger × Registry :=
  let r := (runOn act.job s.2).2
  (if act.ends then {} else s.1.add (r.events.drop s.2.events.length), r)

def run (acts : List Act) (s : Ledger × Registry) : Ledger × Registry := acts.foldl step s

/-- Parts break on leaving, shutting down and closing only in ways that do not mean that the work as a whole is to be
given up. -/
def Civil (breaks : List Happening → Part → String → Option Fault) : Prop :=
  ∀ hs p event e, event = "exit3" ∨ p.ending? = some event → breaks hs p event = some e → e.isA .general = true

/-- The turns of parts in a table, each for an event of its own if it has one. -/
def turns (event? : Part → Option String) (table : List (String × Part)) : List (Option String × Part × String) :=
  table.filterMap fun e => (event? e.2).map fun event => (some e.1, e.2, event)

def grievance? (message label : String) (h : Happening) : Option Record :=
  h.failure.map fun e => complaint message label (h.name.getD "") e

/-- All parts are brought to their end: those of the ledger that were entered are left, then those that were made are
shut down or closed, each once and in order; what breaks is logged, once, and both tables are empty. A part that no
factory made, such as one that was given, is not closed. -/
def Ended (l : Ledger) (r : Registry) (outcome : Except Fault Unit) (after : Except Fault Unit × Registry) : Prop :=
  ∃ exits closings : List Happening,
    after = (outcome,
      { r with
        built := []
        entered := []
        events := r.events ++ exits ++ closings
        complaints := r.complaints ++ exits.filterMap (grievance? "Error cleaning up resource" "resource") ++
          closings.filterMap (grievance? "Error closing service" "service") }) ∧
    exits.map Happening.turn = turns (fun _ => some "exit3") l.entered ∧
    closings.map Happening.turn = turns Part.ending? l.made ∧
    ∀ p, (∀ e ∈ l.made, e.2 ≠ p) → ∀ h ∈ closings, h.part ≠ p

structure Kept (l : Ledger) (r : Registry) : Prop where
  /-- No two factories went through for one name. -/
  made_once : (Keyed.keys l.made).Nodup
  made_anew : (l.made.map fun e => e.2.serial).Nodup
  entered_once : (Keyed.keys l.entered).Nodup
  /-- The answer is what the ledger says afterwards, and a factory that went through is in it. -/
  get_answer : ∀ name preset o s, runOn (getOr name preset) r = (o, s) →
    s.fixed = r.fixed ∧
      ∀ item, o = .ok item →
        item = ((l.add (s.events.drop r.events.length)).standing name r.fixed).getD preset
  /-- Asking again makes nothing. -/
  get_again : ∀ name preset item, l.standing name r.fixed = some item → runOn (getOr name preset) r = (.ok item, r)
  enter_again : ∀ name preset p, (name, p) ∈ l.entered → runOn (enterOr name preset) r = (.ok (.part p), r)
  ended : ∀ act : Act, act.ends = true → Ended l r act.outcome (runOn act.job r)

section Endings

/-- Parts in order: each that has an event gets its turn, whichever of them break. -/
theorem runOn_eachPart (message label : String) (work : String → Part → Job Unit) (event? : Part → Option String)
    (hwork : ∀ name p, work name p =
      match event? p with
      | some event => happen (some name) p event
      | none => return)
    (table : List (String × Part)) :
    ∀ r : Registry,
      (∀ hs p event e, event? p = some event → r.breaks hs p event = some e → e.isA .general = true) →
      ∃ hs, runOn (eachPart message label work table) r =
          (.ok (), { r with
            events := r.events ++ hs
            complaints := r.complaints ++ hs.filterMap (grievance? message label) }) ∧
        hs.map Happening.turn = turns event? table := by
  induction table with
  | nil => exact fun r _ => ⟨[], by simp [eachPart, turns]⟩
  | cons entry rest ih =>
    intro r hcivil
    obtain ⟨name, p⟩ := entry
    simp only [eachPart, runOn_bind, runOn_attempt, hwork]
    cases hevent : event? p with
    | none =>
      obtain ⟨hs, hrun, hturns⟩ := ih r hcivil
      exact ⟨hs, hrun, by rw [hturns, turns, turns, List.filterMap_cons_none (by simp [hevent])]⟩
    | some event =>
      simp only [runOn_happen]
      cases hb : r.breaks r.events p event with
      | none =>
        obtain ⟨hs, hrun, hturns⟩ := ih (r.noting [r.happening (some name) p event]) hcivil
        refine ⟨r.happening (some name) p event :: hs, ?_, ?_⟩
        · simp only [Option.elim, hrun]
          simp [noting, grievance?, happening, hb, List.filterMap_cons]
        · rw [List.map_cons, hturns, turns, turns, List.filterMap_cons_some (by rw [hevent]; rfl)]
          rfl
      | some e =>
        have he : e.isA .general = true := hcivil r.events p event e hevent hb
        obtain ⟨hs, hrun, hturns⟩ := ih
          { r.noting [r.happening (some name) p event] with
            complaints := r.complaints ++ [complaint message label name e] } hcivil
        refine ⟨r.happening (some name) p event :: hs, ?_, ?_⟩
        · simp only [Option.elim, he, Bool.not_true, Bool.false_eq_true, if_false, runOn_modify, runOn_bind]
          refine hrun.trans ?_
          simp [noting, grievance?, happening, hb]
        · rw [List.map_cons, hturns, turns, turns, List.filterMap_cons_some (by rw [hevent]; rfl)]
          rfl

theorem part_mem_of_turn {event? : Part → Option String} {table : List (String × Part)} {hs : List Happening}
    (h : hs.map Happening.turn = turns event? table) {x : Happening} (hx : x ∈ hs) :
    ∃ e ∈ table, e.2 = x.part := by
  have hturn : x.turn ∈ turns event? table := h ▸ List.mem_map_of_mem hx
  obtain ⟨e, he, hsome⟩ := List.mem_filterMap.1 hturn
  obtain ⟨event, _, heq⟩ := Option.map_eq_some_iff.1 hsome
  exact ⟨e, he, congrArg (fun t => t.2.1) heq⟩

/-- A cleanup of a registry whose tables are those of the ledger. -/
theorem runOn_cleanup {l : Ledger} {r : Registry} (hbuilt : r.built = l.made) (hentered : r.entered = l.entered)
    (hcivil : Civil r.breaks) : Ended l r (.ok ()) (runOn cleanup r) := by
  obtain ⟨exits, hexit, hexits⟩ := runOn_eachPart "Error cleaning up resource" "resource" leave
    (fun _ => some "exit3") (fun _ _ => rfl) r.entered r
    (fun hs p event e h hb => hcivil hs p event e (.inl (Option.some.inj h).symm) hb)
  obtain ⟨closings, hclose, hclosings⟩ := runOn_eachPart "Error closing service" "service" close Part.ending?
    (fun _ _ => rfl) r.built
    { r with
      entered := []
      events := r.events ++ exits
      complaints := r.complaints ++ exits.filterMap (grievance? "Error cleaning up resource" "resource") }
    (fun hs p event e h hb => hcivil hs p event e (.inr h) hb)
  refine ⟨exits, closings, ?_, hentered ▸ hexits, hbuilt ▸ hclosings, ?_⟩
  · simp only [cleanup, runOn_bind, runOn_get, hexit, runOn_modify, hclose]
  · intro p hp h hh
    obtain ⟨e, he, hpart⟩ := part_mem_of_turn hclosings hh
    exact hpart ▸ hp e (hbuilt ▸ he)

/-- A lifespan cleans up after its work and has its outcome. -/
theorem runOn_lifespan {α : Type} (work : Job α) {r : Registry} {o : Except Fault α} {s : Registry}
    (hwork : runOn work r = (o, s)) (hcleanup : (runOn cleanup s).1 = .ok ()) :
    runOn (lifespan work) r = (o, (runOn cleanup s).2) := by
  simp only [lifespan, runOn_bind, runOn_attempt, hwork]
  rcases hrun : runOn cleanup s with ⟨o', s'⟩
  obtain rfl : o' = .ok () := by simpa [hrun] using hcleanup
  simp only [runOn_ofExcept]

end Endings

section Keeping

structure Matches (l : Ledger) (r : Registry) : Prop where
  built : r.built = l.made
  entered : r.entered = l.entered
  names : (Keyed.keys l.made).Nodup
  entries : (Keyed.keys l.entered).Nodup
  serials : (l.made.map fun e => e.2.serial).Nodup
  older : ∀ e ∈ l.made, e.2.serial < r.count
  civil : Civil r.breaks

/-- Between two registries some things happened, none of them an ending; the tables grew by what was made and
entered. -/
structure Grown (hs : List Happening) (r s : Registry) : Prop where
  events : s.events = r.events ++ hs
  built : s.built = r.built ++ hs.filterMap Happening.made?
  entered : s.entered = r.entered ++ hs.filterMap Happening.entered?
  names : (Keyed.keys s.built).Nodup
  entries : (Keyed.keys s.entered).Nodup
  serials : (hs.filterMap Happening.made?).map (fun e => e.2.serial) =
    List.range' r.count (hs.filterMap Happening.made?).length
  count : s.count = r.count + (hs.filterMap Happening.made?).length
  breaks : s.breaks = r.breaks

theorem Grown.refl {r : Registry} (hn : (Keyed.keys r.built).Nodup) (he : (Keyed.keys r.entered).Nodup) :
    Grown [] r r :=
  ⟨by simp, by simp, by simp, hn, he, rfl, rfl, rfl⟩

theorem Worked.grown {made : List (String × Part)} {r s : Registry} (h : Worked made r s)
    (hbuilt : s.built = r.built ++ made) (hn : (Keyed.keys s.built).Nodup) (he : (Keyed.keys r.entered).Nodup) :
    ∃ hs, Grown hs r s := by
  obtain ⟨hs, hevents, rfl, hnone⟩ := h.events
  exact ⟨hs, hevents, hbuilt, by rw [h.entered, hnone, List.append_nil], hn, h.entered ▸ he, h.serials, h.count,
    h.breaks⟩

/-- One more thing happened, and it made nothing. -/
theorem Grown.snoc {hs : List Happening} {r s t : Registry} {h : Happening} (hg : Grown hs r s)
    (hmade : h.made? = none) (hevents : t.events = s.events ++ [h]) (hbuilt : t.built = s.built)
    (hentered : t.entered = s.entered ++ h.entered?.toList) (hn : (Keyed.keys t.entered).Nodup)
    (hcount : t.count = s.count) (hbreaks : t.breaks = s.breaks) : Grown (hs ++ [h]) r t := by
  have hsame : (hs ++ [h]).filterMap Happening.made? = hs.filterMap Happening.made? := by
    simp [List.filterMap_append, hmade]
  refine ⟨?_, ?_, ?_, hbuilt ▸ hg.names, hn, ?_, ?_, hbreaks.trans hg.breaks⟩
  · rw [hevents, hg.events, List.append_assoc]
  · rw [hbuilt, hg.built, hsame]
  · rw [hentered, hg.entered, List.filterMap_append, List.append_assoc]
    cases hone : h.entered? <;> simp [hone]
  · rw [hsame, hg.serials]
  · rw [hcount, hg.count, hsame]

theorem grown_getOr (name : String) (preset : Item) {r : Registry} (hn : (Keyed.keys r.built).Nodup)
    (he : (Keyed.keys r.entered).Nodup) : ∃ hs, Grown hs r (runOn (getOr name preset) r).2 := by
  obtain ⟨made, o, s, hrun, hworked, hbuilt, hnames, _⟩ := runOn_getOr name preset hn
  rw [hrun]
  exact hworked.grown hbuilt hnames he

theorem grown_enterOr (name : String) (preset : Item) {r : Registry} (hn : (Keyed.keys r.built).Nodup)
    (he : (Keyed.keys r.entered).Nodup) : ∃ hs, Grown hs r (runOn (enterOr name preset) r).2 := by
  simp only [enterOr, runOn_bind, runOn_get]
  cases hentered : Keyed.get? name r.entered with
  | some p => exact ⟨[], Grown.refl hn he⟩
  | none =>
    obtain ⟨made, o, s, hrun, hworked, hbuilt, hnames, _⟩ := runOn_getOr name preset hn
    obtain ⟨hs, hg⟩ := hworked.grown hbuilt hnames he
    simp only [runOn_bind, hrun]
    cases o with
    | error e => exact ⟨hs, hg⟩
    | ok item =>
      cases item with
      | value v => exact ⟨hs, hg⟩
      | part p =>
        cases henters : p.blueprint.enters with
        | false =>
          simp only [henters, Bool.false_eq_true, if_false]
          exact ⟨hs, hg⟩
        | true =>
          have hnew : name ∉ Keyed.keys s.entered := hworked.entered ▸ Keyed.get?_eq_none_iff.1 hentered
          simp only [henters, if_true, runOn_bind, runOn_happen]
          refine ⟨hs ++ [s.happening (some name) p "enter"], ?_⟩
          cases hb : s.breaks s.events p "enter" with
          | some e =>
            exact hg.snoc (by simp [Happening.made?, happening]) rfl rfl
              (by simp [Happening.entered?, happening, hb, noting]) hg.entries rfl rfl
          | none =>
            exact hg.snoc (by simp [Happening.made?, happening]) rfl rfl
              (by simp [Happening.entered?, happening, hb, noting, Keyed.put_of_not_mem p hnew])
              (Keyed.nodup_keys_put hg.entries) rfl rfl

theorem snd_runOn_discard {α : Type} (work : Job α) (r : Registry) :
    (runOn (discard work) r).2 = (runOn work r).2 := by
  show (runOn (work >>= fun _ => pure ()) r).2 = _
  rw [runOn_bind]
  rcases runOn work r with ⟨o, s⟩
  cases o <;> rfl

/-- An act that ends nothing. -/
theorem grown_act {act : Act} (hact : act.ends = false) {r : Registry} (hn : (Keyed.keys r.built).Nodup)
    (he : (Keyed.keys r.entered).Nodup) : ∃ hs, Grown hs r (runOn act.job r).2 := by
  cases act with
  | register name f => exact ⟨[], by simp [Act.job, registerFactory], by simp [Act.job, registerFactory],
      by simp [Act.job, registerFactory], hn, he, rfl, rfl, rfl⟩
  | fix name item => exact ⟨[], by simp [Act.job, fix], by simp [Act.job, fix], by simp [Act.job, fix], hn, he, rfl,
      rfl, rfl⟩
  | get name preset =>
    rw [Act.job, snd_runOn_discard]
    exact grown_getOr name preset hn he
  | enter name preset =>
    rw [Act.job, snd_runOn_discard]
    exact grown_enterOr name preset hn he
  | cleanup => cases hact
  | leave outcome => cases hact

theorem Matches.add {l : Ledger} {r s : Registry} {hs : List Happening} (h : Matches l r) (hg : Grown hs r s) :
    Matches (l.add (s.events.drop r.events.length)) s := by
  rw [hg.events, List.drop_left]
  have hbuilt : s.built = (l.add hs).made := by rw [hg.built, h.built, Ledger.add]
  have hentered : s.entered = (l.add hs).entered := by rw [hg.entered, h.entered, Ledger.add]
  have hnew : ∀ e ∈ hs.filterMap Happening.made?, r.count ≤ e.2.serial ∧ e.2.serial < s.count := by
    intro e he
    have hmem := List.mem_map_of_mem (f := fun e : String × Part => e.2.serial) he
    rw [hg.serials, List.mem_range'_1, ← hg.count] at hmem
    exact hmem
  refine ⟨hbuilt, hentered, hbuilt ▸ hg.names, hentered ▸ hg.entries, ?_, ?_, hg.breaks ▸ h.civil⟩
  · rw [Ledger.add, List.map_append, List.nodup_append]
    refine ⟨h.serials, hg.serials ▸ List.nodup_range' , ?_⟩
    intro a ha b hb
    obtain ⟨e, he, rfl⟩ := List.mem_map.1 ha
    obtain ⟨d, hd, rfl⟩ := List.mem_map.1 hb
    have := h.older e he
    have := (hnew d hd).1
    omega
  · intro e he
    rcases List.mem_append.1 he with he | he
    · have := h.older e he
      have := hg.count
      omega
    · exact (hnew e he).2

/-- An ending, when the tables are those of the ledger. -/
theorem Matches.ended {l : Ledger} {r : Registry} (h : Matches l r) {act : Act} (hact : act.ends = true) :
    Ended l r act.outcome (runOn act.job r) := by
  have hended := runOn_cleanup h.built h.entered h.civil
  cases act with
  | cleanup => exact hended
  | leave outcome =>
    obtain ⟨exits, closings, hrun, hrest⟩ := hended
    refine ⟨exits, closings, ?_, hrest⟩
    rw [Act.job, runOn_lifespan (ofExcept outcome) (runOn_ofExcept outcome r) (by rw [hrun]), hrun]
    rfl
  | register name f => cases hact
  | fix name item => cases hact
  | get name preset => cases hact
  | enter name preset => cases hact

/-- An act keeps the ledger and the registry together. -/
theorem Matches.step {s : Ledger × Registry} (h : Matches s.1 s.2) (act : Act) :
    Matches (step s act).1 (step s act).2 := by
  cases hact : act.ends with
  | true =>
    obtain ⟨exits, closings, hrun, _⟩ := h.ended hact
    simp only [Registry.step, hact, if_true, hrun]
    exact ⟨rfl, rfl, List.nodup_nil, List.nodup_nil, List.nodup_nil, nofun, h.civil⟩
  | false =>
    obtain ⟨hs, hg⟩ := grown_act hact (h.built ▸ h.names) (h.entered ▸ h.entries)
    simp only [Registry.step, hact, Bool.false_eq_true, if_false]
    exact h.add hg

/-- Acts in a row keep them together, too. -/
theorem Matches.run (acts : List Act) : ∀ {s : Ledger × Registry}, Matches s.1 s.2 →
    Matches (run acts s).1 (run acts s).2 := by
  induction acts with
  | nil => exact id
  | cons act rest ih => exact fun h => ih (h.step act)

theorem Matches.kept {l : Ledger} {r : Registry} (h : Matches l r) : Kept l r where
  made_once := h.names
  made_anew := h.serials
  entered_once := h.entries
  get_answer := by
    intro name preset o s hrun
    obtain ⟨made, o', s', hrun', hworked, hbuilt, _, hanswer⟩ := runOn_getOr name preset (h.built ▸ h.names)
    obtain ⟨rfl, rfl⟩ := Prod.mk.inj (hrun.symm.trans hrun')
    refine ⟨hworked.fixed, fun item hitem => ?_⟩
    obtain ⟨hs, hevents, hmade, _⟩ := hworked.events
    rw [hanswer item hitem, standing, hbuilt, hworked.fixed, hevents, List.drop_left, Ledger.standing, Ledger.add,
      hmade, h.built]
  get_again := fun name preset item hitem =>
    runOn_getOr_standing (by rwa [standing, h.built]) preset
  enter_again := by
    intro name preset p hp
    have hget : Keyed.get? name r.entered = some p :=
      (Keyed.get?_eq_some_iff (h.entered ▸ h.entries)).2 (h.entered ▸ hp)
    simp only [enterOr, runOn_bind, runOn_get, hget, runOn_pure]
  ended := fun _ hact => h.ended hact

end Keeping

/-- What a blueprint says is civil. -/
theorem civil_breaking : Civil breaking := by
  intro hs p event e _ he
  simp only [breaking] at he
  split at he
  · obtain rfl := Option.some.inj he
    rfl
  · cases he

/-- The life of a registry, however its factories and its parts behave and whichever of its parts break: no factory
goes through twice for a name between two endings, and an ending brings every part that was entered or made since the
last one to its end, once and in order, leaves nothing behind, and keeps the outcome of the work before it. A factory
that asks for the very name that it is run for does not go through. -/
theorem parts_made_once_and_ended_once {breaks : List Happening → Part → String → Option Fault}
    (hcivil : Civil breaks) (acts : List Act) :
    Kept (run acts ({}, { breaks := breaks })).1 (run acts ({}, { breaks := breaks })).2 :=
  (Matches.run acts (s := ({}, { breaks := breaks }))
    ⟨rfl, rfl, List.nodup_nil, List.nodup_nil, List.nodup_nil, nofun, hcivil⟩).kept

/-- A cache that breaks when it is closed, and an index that needs the cache and is entered. -/
def cacheAndIndex : List Act :=
  [.register "cache" (Blueprint.factory ⟨"cache", true, none, false, ["close"], none⟩),
    .register "index" (Blueprint.factory ⟨"index", true, some "aclose", true, [], some "cache"⟩),
    .enter "index" (.value .null), .get "cache" (.value .null)]

/-- The cache breaks when it is closed, and yet the index has its turn. -/
theorem cache_and_index_kept :
    Civil breaking ∧ (run cacheAndIndex ({}, { breaks := breaking })).1.made.map (·.1) = ["cache", "index"] ∧
      Kept (run cacheAndIndex ({}, { breaks := breaking })).1 (run cacheAndIndex ({}, { breaks := breaking })).2 :=
  ⟨civil_breaking, by decide +kernel, parts_made_once_and_ended_once civil_breaking cacheAndIndex⟩

end Registry

end Compendium
