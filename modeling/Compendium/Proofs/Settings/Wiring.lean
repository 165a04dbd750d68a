import Compendium.Proofs.Files.Tree
import Compendium.Proofs.Runs
import Compendium.Settings.Environment
import Compendium.Wiring

/-!
The parts that are made from settings which were read without a complaint. A check that compares two fields runs on
a field that is given only, so a chunk size may be read that the preset overlap does not fit; then neither the
indexer nor the service can be made. Whatever else fails is the opening of the store.
-/
namespace Compendium

/-! Values that are fine. -/

namespace Settings

namespace Checked

variable {α β : Type}

theorem map_fine_iff {f : α → β} {x : Checked α} {b : β} :
    f <$> x = .fine b ↔ ∃ a, x = .fine a ∧ f a = b := by
  change Checked.seq (.fine f) (fun _ => x) = .fine b ↔ _
  cases x <;> simp [Checked.seq]

theorem seq_fine_iff {f : Checked (α → β)} {x : Checked α} {b : β} :
    f <*> x = .fine b ↔ ∃ g a, f = .fine g ∧ x = .fine a ∧ g a = b := by
  change Checked.seq f (fun _ => x) = .fine b ↔ _
  cases f <;> cases x <;> simp [Checked.seq]

theorem within_fine_iff {name : String} {x : Checked α} {a : α} : x.within name = .fine a ↔ x = .fine a := by
  cases x <;> simp [within]

theorem ofField_fine_iff {name : String} {r : Except Defect α} {a : α} : ofField name r = .fine a ↔ r = .ok a := by
  cases r <;> simp [ofField]

end Checked

open Checked

variable {α : Type}

theorem checked_ok_iff {read : Json → Except Defect α} {test : α → Bool} {d : Defect} {v : Json} {a : α} :
    checked read test d v = .ok a ↔ read v = .ok a ∧ test a = true := by
  unfold checked
  cases read v with
  | error d' => simp [bind, Except.bind]
  | ok a' =>
    constructor
    · intro h
      by_cases ht : test a' = true
      · simp only [bind, Except.bind, ht, if_true] at h
        cases h
        exact ⟨rfl, ht⟩
      · simp [bind, Except.bind, ht, throw, throwThe, MonadExceptOf.throw] at h
    · rintro ⟨h, ht⟩
      cases h
      simp [bind, Except.bind, ht, pure, Except.pure]

/-- A field that is fine is preset and missing, or read from what is given for it. -/
theorem field_fine {fields : List (String × Json)} {name : String} {read : Json → Except Defect α} {preset a : α}
    (h : field fields name read preset = .fine a) :
    (fields.find? fun f => f.1 = name) = none ∧ a = preset ∨
      ∃ f, (fields.find? fun f => f.1 = name) = some f ∧ read f.2 = .ok a := by
  unfold field at h
  split at h
  case h_1 hf =>
    cases h
    exact .inl ⟨hf, rfl⟩
  case h_2 f hf => exact .inr ⟨f, hf, ofField_fine_iff.1 h⟩

/-- What holds of the preset of a field and of everything that is read for it. -/
theorem field_holds {fields : List (String × Json)} {name : String} {read : Json → Except Defect α} {preset a : α}
    {P : α → Prop} (hpreset : P preset) (hread : ∀ v a, read v = .ok a → P a)
    (h : field fields name read preset = .fine a) : P a := by
  rcases field_fine h with ⟨-, rfl⟩ | ⟨f, -, hf⟩
  · exact hpreset
  · exact hread f.2 a hf

theorem readSection_fine {sections : List (String × Json)} {name : String}
    {read : List (String × Json) → Checked α} {preset a : α}
    (h : readSection sections name read preset = .fine a) :
    (sections.find? fun s => s.1 = name) = none ∧ a = preset ∨
      ∃ n fields, (sections.find? fun s => s.1 = name) = some (n, .object fields) ∧ read fields = .fine a := by
  unfold readSection at h
  split at h
  case h_1 hs =>
    cases h
    exact .inl ⟨hs, rfl⟩
  case h_2 n fields hs => exact .inr ⟨n, fields, hs, within_fine_iff.1 h⟩
  case h_3 => cases h

/-! What the settings promise. -/

def givesOverlap (fields : List (String × Json)) : Bool := (fields.find? fun f => f.1 = "chunk_overlap").isSome

def overlapGiven (sections : List (String × Json)) : Bool :=
  match sections.find? fun s => s.1 = "chunking" with
  | some (_, .object fields) => givesOverlap fields
  | _ => false

/-- What reading promises of chunk sizes: an overlap that is given is below the size, one that is not is preset. -/
structure Sized (given : Bool) (c : ChunkingSettings) : Prop where
  size : 0 < c.size
  overlap : 0 ≤ c.overlap
  below : given = true → c.overlap < c.size
  preset : given = false → c.overlap = ({} : ChunkingSettings).overlap

theorem standard_sized : Sized false {} := ⟨by decide, by decide, nofun, fun _ => rfl⟩

theorem positive_ok {v : Json} {n : Int} (h : positive v = .ok n) : 0 < n := by
  simpa using (checked_ok_iff.1 h).2

/-- An overlap that is given and read is below the size. -/
theorem readChunking_sized {fields : List (String × Json)} {c : ChunkingSettings} (h : readChunking fields = .fine c) :
    Sized (givesOverlap fields) c := by
  simp only [readChunking, seq_fine_iff, map_fine_iff] at h
  obtain ⟨_, overlap, ⟨size, hs, rfl⟩, ho, rfl⟩ := h
  have hsize : 0 < size := field_holds (P := (0 < ·)) standard_sized.size (fun _ _ => positive_ok) hs
  rcases field_fine ho with ⟨hnone, rfl⟩ | ⟨f, hsome, hread⟩
  · exact ⟨hsize, standard_sized.overlap, by simp [givesOverlap, hnone], fun _ => rfl⟩
  · rw [hs] at hread
    obtain ⟨hwhole, hbelow⟩ := checked_ok_iff.1 hread
    obtain ⟨-, hmin⟩ := checked_ok_iff.1 hwhole
    exact ⟨hsize, by simpa using hmin, fun _ => by simpa [value?] using hbelow, by simp [givesOverlap, hsome]⟩

theorem standard_lanes : 0 < ({} : IndexingSettings).lanes := by decide

theorem readIndexing_lanes {fields : List (String × Json)} {i : IndexingSettings} (h : readIndexing fields = .fine i) :
    0 < i.lanes := by
  simp only [readIndexing, seq_fine_iff, map_fine_iff] at h
  obtain ⟨_, failures, ⟨_, limit, ⟨lanes, hl, rfl⟩, -, rfl⟩, -, rfl⟩ := h
  exact field_holds (P := (0 < ·)) standard_lanes (fun _ _ => positive_ok) hl

theorem path_normal {v : Json} {p : Path} (h : path v = .ok p) : p.Normal := by
  cases v <;> cases h
  exact Path.ofText_normal _

theorem standard_database_normal : ({} : StorageSettings).database.Normal := Path.ofText_normal "data/knowledge.db"

theorem readStorage_normal {fields : List (String × Json)} {s : StorageSettings} (h : readStorage fields = .fine s) :
    s.database.Normal := by
  simp only [readStorage, seq_fine_iff, map_fine_iff] at h
  obtain ⟨_, base, ⟨_, database, ⟨backend, -, rfl⟩, hd, rfl⟩, -, rfl⟩ := h
  exact field_holds (P := Path.Normal) standard_database_normal (fun _ _ => path_normal) hd

structure Promised (given : Bool) (s : Settings) : Prop where
  chunking : Sized given s.chunking
  lanes : 0 < s.indexing.lanes
  database : s.storage.database.Normal

/-- Settings that are read keep all their promises. -/
theorem readAll_promised {sections : List (String × Json)} {s : Settings} (h : readAll sections = .fine s) :
    Promised (overlapGiven sections) s := by
  simp only [readAll, seq_fine_iff, map_fine_iff] at h
  obtain ⟨_, reporting,
    ⟨_, storage, ⟨_, indexing, ⟨_, retrieval, ⟨_, chunking, ⟨embedding, -, rfl⟩, hc, rfl⟩,
    -, rfl⟩, hi, rfl⟩, hs, rfl⟩, -, rfl⟩ := h
  refine ⟨?_, ?_, ?_⟩
  · rcases readSection_fine hc with ⟨hnone, rfl⟩ | ⟨n, fields, hsome, hread⟩
    · simpa [overlapGiven, hnone] using standard_sized
    · simpa [overlapGiven, hsome] using readChunking_sized hread
  · rcases readSection_fine hi with ⟨-, rfl⟩ | ⟨n, fields, -, hread⟩
    · exact standard_lanes
    · exact readIndexing_lanes hread
  · rcases readSection_fine hs with ⟨-, rfl⟩ | ⟨n, fields, -, hread⟩
    · exact standard_database_normal
    · exact readStorage_normal hread

end Settings

/-! What opening a store may report. -/

/-- Why the database at a path is not opened: the file system or the database reports something, or no file can
have the path. -/
inductive Fault.OfOpening (database : Path) : Fault → Prop
  | file (d : FileDefect) (ps : List String) : OfOpening database (.file d ps)
  | opening (cause : DatabaseFault) : OfOpening database (.store (.opening database.text cause))
  | path (h : database.hasNul = true) : OfOpening database .nulInPath

theorem Fault.OfOpening.of_file {database : Path} {e : Fault} (h : ∃ d ps, e = .file d ps) :
    e.OfOpening database := by
  obtain ⟨d, ps, rfl⟩ := h
  exact .file d ps

namespace Action

open Fault (OfOpening)

theorem reports_openFile {database : Path} (hn : database.Normal) :
    Reports (OfOpening database) (openFile database.text) := by
  have hfile {α : Type} {r : Except FileDefect α} (e : Fault) (h : Tree.failing [database] r = .error e) :
      e.OfOpening database := .of_file (Tree.failing_fault h)
  rw [openFile, Path.ofText_text hn]
  refine reports_bind (reports_writeFiles fun t e h => ?_) fun _ => ?_
  · rcases Tree.makeDirectories_fault h with ⟨rfl, hnul⟩ | hf
    · exact .path (Path.hasNul_of_parent hnul)
    · exact .of_file hf
  split
  case isTrue hnul => exact reports_throw_bind (.path hnul) _
  case isFalse =>
    refine reports_bind reports_get fun b => ?_
    split
    case h_1 cause _ => exact reports_throw (.opening cause)
    case h_2 =>
      refine reports_bind (reports_readFiles fun t e => hfile e) fun _ => ?_
      exact reports_bind reports_get fun _ => reports_pure _
    case h_3 => exact reports_bind (reports_writeFiles fun t e => hfile e) fun _ => reports_pure _

/-- A store in memory is always opened. -/
theorem reports_openStore {s : StorageSettings} (hn : s.database.Normal) :
    Reports (fun e => s.backend = .database ∧ e.OfOpening s.database) (openStore s) := by
  generalize hP : (fun e => s.backend = .database ∧ Fault.OfOpening s.database e) = P
  unfold openStore StorageSettings.opens
  cases hb : s.backend with
  | memory => exact reports_modify _
  | database =>
    have hopen : Reports P (openFile s.database.text) := fun b c e he => by
      rw [← hP]
      exact ⟨hb, reports_openFile hn b c e he⟩
    have hkeep (d : Database) : Reports P (do
        modify fun b => { b with store := .table d }
        log .info "sqlite" "__init__" "Opened knowledge store" [("path", .text s.database.text)]) :=
      reports_bind (reports_modify _) fun _ => reports_log _ _ _ _ _
    dsimp only
    split
    · exact reports_bind (reports_pure _) hkeep
    · exact reports_bind hopen hkeep

end Action

/-! Parts made from settings. -/

namespace Segment.Budget

theorem ofInts_below {size overlap : Int} (ho : 0 ≤ overlap) (h : overlap < size) :
    ∃ b : Budget, ofInts size overlap = .ok b ∧ (b.size : Int) = size ∧ (b.overlap : Int) = overlap := by
  have hs : ¬ size ≤ 0 := by omega
  have hr : ¬ (overlap < 0 ∨ size ≤ overlap) := by omega
  refine ⟨⟨size.toNat, overlap.toNat, by omega⟩, ?_, Int.toNat_of_nonneg (by omega), Int.toNat_of_nonneg ho⟩
  rw [ofInts, if_neg hs, dif_neg hr]

/-- An overlap that is not below the size makes no budget. -/
theorem ofInts_above {size overlap : Int} (hs : 0 < size) (h : size ≤ overlap) :
    ofInts size overlap = .error .overlapOutOfRange := by
  rw [ofInts, if_neg (by omega), dif_pos (.inr h)]

end Segment.Budget

namespace Settings

def Wired (s : Settings) : Prop :=
  ∃ b : Segment.Budget, (b.size : Int) = s.chunking.size ∧ (b.overlap : Int) = s.chunking.overlap ∧
    s.budget = .ok b ∧ let indexer : Indexer := ⟨b, s.indexing.lanes, s.indexing.embedLimit.map .decimal⟩
    s.indexer = .ok indexer ∧
      (Wiring.ofSettings s).service = .ok ⟨s.storage.base, indexer, s.retriever, s.indexing.mostFailures⟩

structure OverlapRefused (s : Settings) : Prop where
  budget : s.budget = .error .overlapOutOfRange
  indexer : s.indexer = .error .overlapOutOfRange
  service : (Wiring.ofSettings s).service = .error .overlapOutOfRange

/-- What becomes of settings when parts are made from them. -/
structure Outcome (given : Bool) (s : Settings) : Prop where
  /-- All parts are made exactly when an overlap was given or the preset one is below the chunk size. -/
  wired : s.Wired ↔ given = true ∨ ({} : ChunkingSettings).overlap < s.chunking.size
  refused : ¬ s.Wired → s.OverlapRefused
  store : Action.Reports (fun e => s.storage.backend = .database ∧ e.OfOpening s.storage.database)
    (Action.openStore s.storage)

theorem wired_of_below {s : Settings} (ho : 0 ≤ s.chunking.overlap) (h : s.chunking.overlap < s.chunking.size)
    (hl : 0 < s.indexing.lanes) : s.Wired := by
  obtain ⟨b, hb, hsize, hoverlap⟩ := Segment.Budget.ofInts_below ho h
  have hi : s.indexer = .ok ⟨b, s.indexing.lanes, s.indexing.embedLimit.map .decimal⟩ := by
    have hlanes : ¬ s.indexing.lanes ≤ 0 := by omega
    simp [indexer, budget, hb, Indexer.make, hlanes, bind, Except.bind]
  refine ⟨b, hsize, hoverlap, hb, hi, ?_⟩
  simp only [Wiring.service, Wiring.ofSettings, hi]
  rfl

theorem refused_of_above {s : Settings} (hs : 0 < s.chunking.size) (h : s.chunking.size ≤ s.chunking.overlap) :
    s.OverlapRefused := by
  have hb : s.budget = .error .overlapOutOfRange := Segment.Budget.ofInts_above hs h
  have hi : s.indexer = .error .overlapOutOfRange := by
    rw [indexer, hb]
    rfl
  refine ⟨hb, hi, ?_⟩
  simp only [Wiring.service, Wiring.ofSettings, hi]
  rfl

theorem OverlapRefused.not_wired {s : Settings} (h : s.OverlapRefused) : ¬ s.Wired := by
  rintro ⟨b, -, -, hb, -⟩
  cases hb.symm.trans h.budget

/-- Settings that keep their promises are wired, unless the preset overlap is too large for the size. -/
theorem Promised.outcome {given : Bool} {s : Settings} (h : Promised given s) : Outcome given s := by
  have hbelow : s.chunking.overlap < s.chunking.size ↔
      given = true ∨ ({} : ChunkingSettings).overlap < s.chunking.size := by
    cases hg : given with
    | true => simp [h.chunking.below hg]
    | false => simp [h.chunking.preset hg]
  by_cases hlt : s.chunking.overlap < s.chunking.size
  · have hw := wired_of_below h.chunking.overlap hlt h.lanes
    exact ⟨iff_of_true hw (hbelow.1 hlt), fun hn => absurd hw hn, Action.reports_openStore h.database⟩
  · have hr := refused_of_above h.chunking.size (Int.not_lt.1 hlt)
    exact ⟨iff_of_false hr.not_wired (hlt ∘ hbelow.2), fun _ => hr, Action.reports_openStore h.database⟩

theorem ofEnvironment_fine {env : List (String × String)} {s : Settings} (h : ofEnvironment env = .ok (.fine s)) :
    ∃ sections, sectionsOf (lowered env) sectionNames = .ok sections ∧ readAll sections = .fine s := by
  unfold ofEnvironment at h
  cases hs : sectionsOf (lowered env) sectionNames with
  | error e =>
    rw [hs] at h
    cases h
  | ok sections =>
    rw [hs] at h
    exact ⟨sections, rfl, Except.ok.inj h⟩

/-- From settings that were read without a complaint, given as sections or by environment variables, all parts are
made exactly when an overlap was given or the chunk size is above the preset one; else the indexer and the service are
refused because of the overlap. A store is opened unless the file system, the database or its path forbid it. -/
theorem loaded_settings_wire_iff (s : Settings) :
    (∀ sections, readAll sections = .fine s → Outcome (overlapGiven sections) s) ∧
      ∀ env, ofEnvironment env = .ok (.fine s) →
        ∃ sections, sectionsOf (lowered env) sectionNames = .ok sections ∧ Outcome (overlapGiven sections) s := by
  refine ⟨fun sections h => (readAll_promised h).outcome, fun env h => ?_⟩
  obtain ⟨sections, hs, hr⟩ := ofEnvironment_fine h
  exact ⟨sections, hs, (readAll_promised hr).outcome⟩

def ofSize (size : Int) : Settings := { chunking := { size := size } }

/-- A chunk size of 60 leaves room for the preset overlap, and one of 30 does not. -/
theorem loaded_settings_wire_iff_sizes :
    ofEnvironment [("VULNKB_CHUNKING__CHUNK_SIZE", "60")] = .ok (.fine (ofSize 60)) ∧ (ofSize 60).Wired ∧
      readAll [("chunking", .object [("chunk_size", .text "30")])] = .fine (ofSize 30) ∧ ¬ (ofSize 30).Wired := by
  have hsixty : ofEnvironment [("VULNKB_CHUNKING__CHUNK_SIZE", "60")] = .ok (.fine (ofSize 60)) := rfl
  have hthirty : readAll [("chunking", .object [("chunk_size", .text "30")])] = .fine (ofSize 30) := rfl
  obtain ⟨sections, -, houtcome⟩ := (loaded_settings_wire_iff _).2 _ hsixty
  have hrefused := ((loaded_settings_wire_iff _).1 _ hthirty).wired
  exact ⟨hsixty, houtcome.wired.2 (.inr (by decide)), hthirty, fun h => absurd (hrefused.1 h) (by decide)⟩

/-- A chunk size that is read, while neither a cutter of texts nor the service is made with it. -/
theorem small_size_is_read_and_refused :
    ofEnvironment [("VULNKB_CHUNKING__CHUNK_SIZE", "30")] = .ok (.fine (ofSize 30)) ∧
      (ofSize 30).budget = .error .overlapOutOfRange ∧
      (Wiring.ofSettings (ofSize 30)).service = .error .overlapOutOfRange :=
  ⟨rfl, rfl, rfl⟩

end Settings
end Compendium
