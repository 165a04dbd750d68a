import Compendium.Base

/-!
Runs of actions. A run is a plain function of the base it starts from; what
was logged, measured and printed on the way never decides what happens next,
so the equations below keep it apart in `noting`.
-/
namespace Compendium

variable {α β γ : Type}

def Base.noting (b : Base) (es : List Entry) : Base := { b with journal := b.journal ++ es }

/-- Two bases with the same clock, files, provider and refusals; ids may have been given out. -/
structure Base.Steady (b b' : Base) : Prop where
  clock : b'.clock = b.clock
  files : b'.files = b.files
  provider : b'.provider = b.provider
  refusals : b'.refusals = b.refusals
  issued : b.issued ≤ b'.issued

namespace Base

@[simp] theorem noting_clock (b : Base) (es : List Entry) : (b.noting es).clock = b.clock := rfl
@[simp] theorem noting_issued (b : Base) (es : List Entry) : (b.noting es).issued = b.issued := rfl
@[simp] theorem noting_store (b : Base) (es : List Entry) : (b.noting es).store = b.store := rfl
@[simp] theorem noting_files (b : Base) (es : List Entry) : (b.noting es).files = b.files := rfl
@[simp] theorem noting_provider (b : Base) (es : List Entry) : (b.noting es).provider = b.provider := rfl
@[simp] theorem noting_asked (b : Base) (es : List Entry) : (b.noting es).asked = b.asked := rfl
@[simp] theorem noting_refusals (b : Base) (es : List Entry) : (b.noting es).refusals = b.refusals := rfl

theorem noting_noting (b : Base) (es es' : List Entry) : (b.noting es).noting es' = b.noting (es ++ es') := by
  simp [noting]

theorem Steady.refl (b : Base) : b.Steady b := ⟨rfl, rfl, rfl, rfl, Nat.le_refl _⟩

theorem Steady.trans {b c d : Base} (h : b.Steady c) (h' : c.Steady d) : b.Steady d :=
  ⟨h'.clock.trans h.clock, h'.files.trans h.files, h'.provider.trans h.provider, h'.refusals.trans h.refusals,
    Nat.le_trans h.issued h'.issued⟩

theorem steady_noting (b : Base) (es : List Entry) : b.Steady (b.noting es) := ⟨rfl, rfl, rfl, rfl, Nat.le_refl _⟩

end Base

theorem exists_of_toOption {f : α → β} {r : Except Fault α} {v : β} (h : r.toOption.map f = some v) :
    ∃ a, r = .ok a ∧ f a = v := by
  cases r with
  | error e => cases h
  | ok a => exact ⟨a, rfl, Option.some.inj h⟩

namespace Action

/-- What work on a base comes to, and the base it leaves. -/
def runOn (work : Action α) (b : Base) : Except Fault α × Base := work.run.run b

@[simp] theorem runOn_pure (a : α) (b : Base) : runOn (pure a) b = (.ok a, b) := rfl
@[simp] theorem runOn_throw (e : Fault) (b : Base) : runOn (throw e : Action α) b = (.error e, b) := rfl
@[simp] theorem runOn_get (b : Base) : runOn (get : Action Base) b = (.ok b, b) := rfl
@[simp] theorem runOn_modify (f : Base → Base) (b : Base) : runOn (modify f : Action Unit) b = (.ok (), f b) := rfl

/-- Work goes on from what the work before it left, and ends with the first failure. -/
theorem runOn_bind (x : Action α) (f : α → Action β) (b : Base) :
    runOn (x >>= f) b =
      match runOn x b with
      | (.ok a, c) => runOn (f a) c
      | (.error e, c) => (.error e, c) := by
  simp only [runOn, ExceptT.run_bind, StateT.run_bind]
  rcases x.run.run b with ⟨r, c⟩
  cases r <;> rfl

@[simp] theorem runOn_map (x : Action α) (f : α → β) (b : Base) :
    runOn (f <$> x) b = ((runOn x b).1.map f, (runOn x b).2) := by
  rw [map_eq_pure_bind, runOn_bind]
  rcases runOn x b with ⟨r, c⟩
  cases r <;> rfl

@[simp] theorem runOn_ofExcept (r : Except Fault α) (b : Base) : runOn (ofExcept r) b = (r, b) := by
  cases r <;> rfl

@[simp] theorem runOn_attempt (work : Action α) (b : Base) :
    runOn (attempt work) b = (.ok (runOn work b).1, (runOn work b).2) := rfl

@[simp] theorem runOn_now (b : Base) : runOn now b = (.ok (Time.ofUnixMicros b.clock), b) := rfl

@[simp] theorem runOn_newId (b : Base) :
    runOn newId b = (.ok (idText (b.issued + 1)), { b with issued := b.issued + 1 }) := rfl

@[simp] theorem runOn_log (level : Level) (source origin message : String) (fields : List (String × Json)) (b : Base) :
    runOn (log level source origin message fields) b =
      (.ok (), b.noting [.logged level (Time.ofUnixMicros b.clock)
        (Record.ofCall level source origin message fields)]) :=
  rfl

@[simp] theorem runOn_measure (f : Meter → Meter) (b : Base) :
    runOn (measure f) b = (.ok (), { b with meter := f b.meter }) := rfl

@[simp] theorem runOn_ask (text : String) (b : Base) :
    runOn (ask text) b = (.ok (b.provider b.asked text), { b with asked := b.asked ++ [text] }) := rfl

@[simp] theorem runOn_readFiles (f : Tree → Except Fault α) (b : Base) :
    runOn (readFiles f) b = (f b.files, b) := by
  simp [readFiles, runOn_bind]

theorem runOn_writeFiles (f : Tree → Except Fault Tree) (b : Base) :
    runOn (writeFiles f) b =
      match f b.files with
      | .ok t => (.ok (), { b with files := t })
      | .error e => (.error e, b) := by
  simp only [writeFiles, runOn_bind, runOn_get, runOn_ofExcept]
  cases f b.files <;> rfl

theorem runOn_writeStore (f : Store → Except Fault Store) (b : Base) :
    runOn (writeStore f) b =
      match f b.store with
      | .ok s => (.ok (), { b with store := s })
      | .error e => (.error e, b) := by
  simp only [writeStore, runOn_bind, runOn_get, runOn_ofExcept]
  cases f b.store <;> rfl

theorem runOn_writeFiles_inv {f : Tree → Except Fault Tree} {b c : Base} (h : runOn (writeFiles f) b = (.ok (), c)) :
    ∃ t, f b.files = .ok t ∧ c = { b with files := t } := by
  rw [runOn_writeFiles] at h
  split at h
  next t ht =>
    cases h
    exact ⟨t, ht, rfl⟩
  · cases h

theorem runOn_writeStore_inv {f : Store → Except Fault Store} {b c : Base}
    (h : runOn (writeStore f) b = (.ok (), c)) : ∃ s, f b.store = .ok s ∧ c = { b with store := s } := by
  rw [runOn_writeStore] at h
  split at h
  next s hs =>
    cases h
    exact ⟨s, hs, rfl⟩
  · cases h

def noticeEntry (clock : Nat) (n : Notice) : Entry :=
  .logged .warning (Time.ofUnixMicros clock) (Record.ofCall .warning "sqlite" n.origin n.message n.fields)

theorem runOn_logNotices (ns : List Notice) (b : Base) :
    runOn (ns.forM logNotice) b = (.ok (), b.noting (ns.map (noticeEntry b.clock))) := by
  induction ns generalizing b with
  | nil => simp [Base.noting]
  | cons n ns ih =>
    change runOn (logNotice n >>= fun _ => ns.forM logNotice) b = _
    rw [runOn_bind, logNotice, runOn_log]
    simp only [ih, Base.noting, noticeEntry, List.map_cons, List.append_assoc, List.singleton_append]

/-- Reading the store gives what the store gives; only the journal grows. -/
theorem runOn_readStore (f : Store → Reading α) (b : Base) :
    runOn (readStore f) b =
      ((f b.store).outcome, b.noting ((f b.store).notices.map (noticeEntry b.clock))) := by
  simp only [readStore, runOn_bind, runOn_get, runOn_logNotices, runOn_ofExcept]

theorem runOn_refuseIf (refused : Refusals → Bool) (f : StoreFault) (b : Base) :
    runOn (refuseIf refused f) b = (if refused b.refusals then .error (.store f) else .ok (), b) := by
  simp only [refuseIf, runOn_bind, runOn_get]
  split <;> simp_all

theorem runOn_document_admitted {b : Base} {id : String} (h : b.refusals.reading id = false) :
    ∃ es, runOn (document id) b = ((Store.document id b.store).outcome, b.noting es) := by
  simp only [document, runOn_bind, runOn_refuseIf, h]
  exact ⟨_, runOn_readStore _ _⟩

theorem runOn_document (id : String) (b : Base) :
    runOn (document id) b = (.error (.store (.unreadable id)), b) ∨
      b.refusals.reading id = false ∧ ∃ es,
        runOn (document id) b = ((Store.document id b.store).outcome, b.noting es) := by
  cases h : b.refusals.reading id with
  | false => exact .inr ⟨rfl, runOn_document_admitted h⟩
  | true =>
    simp only [document, runOn_bind, runOn_refuseIf, h]
    exact .inl rfl

/-- A probe passes on what its work comes to and adds one entry. -/
theorem runOn_probed (operation : String) (labels : List (String × Json)) (work : Action α) (b : Base) :
    ∃ e, runOn (probed operation labels work) b = ((runOn work b).1, (runOn work b).2.noting [e]) := by
  simp only [probed, runOn_bind, runOn_get, runOn_attempt]
  exact ⟨_, by simp only [logRecord, note, runOn_bind, runOn_now, runOn_modify, runOn_ofExcept]; rfl⟩

theorem runOn_bind_ok {x : Action α} {f : α → Action β} {b c : Base} {v : β} :
    runOn (x >>= f) b = (.ok v, c) ↔ ∃ a d, runOn x b = (.ok a, d) ∧ runOn (f a) d = (.ok v, c) := by
  rw [runOn_bind]
  rcases runOn x b with ⟨r, d⟩
  cases r with
  | ok a =>
    constructor
    · exact fun h => ⟨a, d, rfl, h⟩
    · rintro ⟨a', d', h, h'⟩
      cases h
      exact h'
  | error e => simp

theorem runOn_bind_error {x : Action α} {f : α → Action β} {b c : Base} {e : Fault} :
    runOn (x >>= f) b = (.error e, c) ↔
      runOn x b = (.error e, c) ∨ ∃ a d, runOn x b = (.ok a, d) ∧ runOn (f a) d = (.error e, c) := by
  rw [runOn_bind]
  rcases runOn x b with ⟨r, d⟩
  cases r with
  | ok a =>
    constructor
    · exact fun h => .inr ⟨a, d, rfl, h⟩
    · rintro (h | ⟨a', d', h, h'⟩)
      · cases h
      · cases h
        exact h'
  | error e' =>
    constructor
    · exact fun h => .inl (by cases h; rfl)
    · rintro (h | ⟨a', d', h, -⟩)
      · cases h
        rfl
      · cases h

/-! What no action of some kind changes. -/

/-- Whatever comes of the work, the base that it leaves is related to the one it started from. -/
def Leads (R : Base → Base → Prop) (work : Action α) : Prop := ∀ b, R b (runOn work b).2

/-- Relations that can be put together from step to step and do not look at what was logged. -/
structure Frame (R : Base → Base → Prop) : Prop where
  refl : ∀ b, R b b
  trans : ∀ {b c d}, R b c → R c d → R b d
  noting : ∀ b es, R b (b.noting es)

section
variable {R : Base → Base → Prop}

theorem Leads.of_run {work : Action α} (h : Leads R work) {b c : Base} {r : Except Fault α}
    (hr : runOn work b = (r, c)) : R b c := by
  have := h b
  rwa [hr] at this

theorem leads_pure (hR : Frame R) (a : α) : Leads R (pure a) := fun b => hR.refl b
theorem leads_throw (hR : Frame R) (e : Fault) : Leads R (throw e : Action α) := fun b => hR.refl b
theorem leads_get (hR : Frame R) : Leads R (get : Action Base) := fun b => hR.refl b
theorem leads_now (hR : Frame R) : Leads R now := fun b => hR.refl b
theorem leads_log (hR : Frame R) (level : Level) (source origin message : String) (fields : List (String × Json)) :
    Leads R (log level source origin message fields) := fun b => hR.noting b _

/-- Work in two steps stays within what both stay within. -/
theorem leads_bind (hR : Frame R) {x : Action α} {f : α → Action β} (hx : Leads R x) (hf : ∀ a, Leads R (f a)) :
    Leads R (x >>= f) := fun b => by
  have h := hx b
  rw [runOn_bind]
  rcases hr : runOn x b with ⟨r, c⟩
  rw [hr] at h
  cases r with
  | ok a => exact hR.trans h (hf a c)
  | error e => exact h

/-- A failure that is caught changes nothing about the base. -/
theorem leads_attempt {work : Action α} (h : Leads R work) : Leads R (attempt work) := fun b => h b

theorem leads_map {f : α → β} {work : Action α} (h : Leads R work) : Leads R (f <$> work) := fun b => by
  rw [runOn_map]
  exact h b

theorem leads_ofExcept (hR : Frame R) (r : Except Fault α) : Leads R (ofExcept r) := fun b => by
  rw [runOn_ofExcept]
  exact hR.refl b

theorem leads_probed (hR : Frame R) (operation : String) (labels : List (String × Json)) {work : Action α}
    (h : Leads R work) : Leads R (probed operation labels work) := fun b => by
  obtain ⟨e, he⟩ := runOn_probed operation labels work b
  rw [he]
  exact hR.trans (h b) (hR.noting _ _)

theorem leads_readStore (hR : Frame R) (f : Store → Reading α) : Leads R (readStore f) := fun b => by
  rw [runOn_readStore]
  exact hR.noting _ _

theorem leads_document (hR : Frame R) (id : String) : Leads R (document id) := fun b => by
  rcases runOn_document id b with h | ⟨-, es, h⟩ <;> rw [h]
  · exact hR.refl b
  · exact hR.noting b es

theorem leads_readFiles (hR : Frame R) (f : Tree → Except Fault α) : Leads R (readFiles f) := fun b => by
  rw [runOn_readFiles]
  exact hR.refl b

theorem leads_writeStore (hR : Frame R) {f : Store → Except Fault Store}
    (h : ∀ b s, f b.store = .ok s → R b { b with store := s }) : Leads R (writeStore f) := fun b => by
  rw [runOn_writeStore]
  cases hs : f b.store with
  | ok s => exact h b s hs
  | error e => exact hR.refl b

theorem leads_writeFiles (hR : Frame R) {f : Tree → Except Fault Tree}
    (h : ∀ b t, f b.files = .ok t → R b { b with files := t }) : Leads R (writeFiles f) := fun b => by
  rw [runOn_writeFiles]
  cases ht : f b.files with
  | ok t => exact h b t ht
  | error e => exact hR.refl b

end

/-! What work may fail with. -/

/-- Work fails with some failures only. -/
def Reports (P : Fault → Prop) (work : Action α) : Prop := ∀ b c e, runOn work b = (.error e, c) → P e

section
variable {P : Fault → Prop}

theorem reports_pure (a : α) : Reports P (pure a) := fun _ _ _ h => by cases h
theorem reports_get : Reports P (get : Action Base) := fun _ _ _ h => by cases h
theorem reports_modify (f : Base → Base) : Reports P (modify f : Action Unit) := fun _ _ _ h => by cases h
theorem reports_log (level : Level) (source origin message : String) (fields : List (String × Json)) :
    Reports P (log level source origin message fields) := fun _ _ _ h => by cases h

theorem reports_throw {e : Fault} (h : P e) : Reports P (throw e : Action α) := fun _ _ _ he => by
  cases he
  exact h

theorem reports_throw_bind {e : Fault} (h : P e) (f : α → Action β) :
    Reports P (throw e >>= f) := fun _ _ _ he => by
  cases he
  exact h

theorem reports_bind {x : Action α} {f : α → Action β} (hx : Reports P x) (hf : ∀ a, Reports P (f a)) :
    Reports P (x >>= f) := fun b c e h => by
  rcases runOn_bind_error.1 h with h | ⟨a, d, -, h⟩
  · exact hx b c e h
  · exact hf a d c e h

theorem reports_readFiles {f : Tree → Except Fault α} (h : ∀ t e, f t = .error e → P e) :
    Reports P (readFiles f) := fun b c e he => by
  rw [runOn_readFiles] at he
  exact h b.files e (congrArg Prod.fst he)

theorem reports_writeFiles {f : Tree → Except Fault Tree} (h : ∀ t e, f t = .error e → P e) :
    Reports P (writeFiles f) := fun b c e he => by
  rw [runOn_writeFiles] at he
  split at he
  case h_1 => cases he
  case h_2 e' hf =>
    cases he
    exact h b.files e hf

end

/-! Ids. -/

/-- The digits of an id give back its number. -/
theorem ofDigitChars_idText (n : Nat) : Nat.ofDigitChars 10 ((idText n).toList.drop 3) 0 = n := by
  have h : (idText n).toList.drop 3 =
      List.replicate (4 - (Nat.toDigits 10 n).length) '0' ++ Nat.toDigits 10 n := by
    simp [idText]
  rw [h, Nat.ofDigitChars_append, Nat.ofDigitChars_replicate_zero, Nat.mul_zero, Nat.ofDigitChars_ten_toDigits]

/-- No id is given out for two numbers. -/
theorem idText_inj {m n : Nat} (h : idText m = idText n) : m = n := by
  rw [← ofDigitChars_idText m, ← ofDigitChars_idText n, h]

end Action
end Compendium
