import Compendium.Proofs.Runs

/-!
The journal is written and never read. Work that starts from bases which differ in their journals comes to the same and
leaves bases that differ in their journals.
-/
namespace Compendium

variable {α β : Type}

namespace Base

/-- Two bases that differ in what was logged and printed alone. -/
def Twin (b c : Base) : Prop := ∃ journal, c = { b with journal := journal }

theorem Twin.refl (b : Base) : b.Twin b := ⟨b.journal, rfl⟩

theorem Twin.symm {b c : Base} (h : b.Twin c) : c.Twin b := by
  obtain ⟨journal, rfl⟩ := h
  exact ⟨b.journal, rfl⟩

theorem Twin.trans {b c d : Base} (h : b.Twin c) (h' : c.Twin d) : b.Twin d := by
  obtain ⟨journal, rfl⟩ := h
  obtain ⟨journal', rfl⟩ := h'
  exact ⟨journal', rfl⟩

theorem twin_noting (b : Base) (es : List Entry) : b.Twin (b.noting es) := ⟨b.journal ++ es, rfl⟩

theorem Twin.store {b c : Base} (h : b.Twin c) : c.store = b.store := by
  obtain ⟨journal, rfl⟩ := h
  rfl

theorem Twin.asked {b c : Base} (h : b.Twin c) : c.asked = b.asked := by
  obtain ⟨journal, rfl⟩ := h
  rfl

theorem Twin.meter {b c : Base} (h : b.Twin c) : c.meter = b.meter := by
  obtain ⟨journal, rfl⟩ := h
  rfl

end Base

namespace Action

/-- Work in which the journal has no part. -/
def Blind (work : Action α) : Prop :=
  ∀ b c : Base, b.Twin c → (runOn work c).1 = (runOn work b).1 ∧ (runOn work b).2.Twin (runOn work c).2

/-- Work in steps that do not look at the journal does not look at it. -/
theorem blind_bind {x : Action α} {f : α → Action β} (hx : Blind x) (hf : ∀ a, Blind (f a)) :
    Blind (x >>= f) := by
  intro b c h
  obtain ⟨houtcome, htwin⟩ := hx b c h
  rw [runOn_bind, runOn_bind]
  generalize runOn x b = first at houtcome htwin
  generalize runOn x c = second at houtcome htwin
  obtain ⟨r, b'⟩ := first
  obtain ⟨r', c'⟩ := second
  obtain rfl : r' = r := houtcome
  cases r' with
  | ok a => exact hf a b' c' htwin
  | error e => exact ⟨rfl, htwin⟩

/-- Work that only adds to the journal is blind if what it comes to does not depend on it. -/
theorem blind_of_noting {work : Action α} (h : ∀ b, ∃ es, (runOn work b).2 = b.noting es)
    (houtcome : ∀ b c, b.Twin c → (runOn work c).1 = (runOn work b).1) : Blind work := by
  intro b c htwin
  obtain ⟨es, hb⟩ := h b
  obtain ⟨es', hc⟩ := h c
  refine ⟨houtcome b c htwin, ?_⟩
  rw [hb, hc]
  exact (b.twin_noting es).symm.trans (htwin.trans (c.twin_noting es'))

theorem blind_pure (a : α) : Blind (pure a) := fun _ _ h => ⟨rfl, h⟩
theorem blind_throw (e : Fault) : Blind (throw e : Action α) := fun _ _ h => ⟨rfl, h⟩

theorem blind_now : Blind now := by
  rintro b c ⟨journal, rfl⟩
  exact ⟨rfl, journal, rfl⟩

theorem blind_newId : Blind newId := by
  rintro b c ⟨journal, rfl⟩
  exact ⟨rfl, journal, rfl⟩

theorem blind_ask (text : String) : Blind (ask text) := by
  rintro b c ⟨journal, rfl⟩
  exact ⟨rfl, journal, rfl⟩

theorem blind_measure (f : Meter → Meter) : Blind (measure f) := by
  rintro b c ⟨journal, rfl⟩
  exact ⟨rfl, journal, rfl⟩

theorem blind_log (level : Level) (source origin message : String) (fields : List (String × Json)) :
    Blind (log level source origin message fields) := by
  refine blind_of_noting (fun b => ?_) fun b c _ => ?_
  · rw [runOn_log]
    exact ⟨_, rfl⟩
  · rw [runOn_log, runOn_log]

theorem blind_readStore (f : Store → Reading α) : Blind (readStore f) := by
  refine blind_of_noting (fun b => ?_) fun b c h => ?_
  · rw [runOn_readStore]
    exact ⟨_, rfl⟩
  · rw [runOn_readStore, runOn_readStore, h.store]

theorem blind_writeStore (f : Store → Except Fault Store) : Blind (writeStore f) := by
  rintro b c ⟨journal, rfl⟩
  rw [runOn_writeStore, runOn_writeStore]
  dsimp only
  cases f b.store with
  | ok s => exact ⟨rfl, journal, rfl⟩
  | error e => exact ⟨rfl, journal, rfl⟩

theorem blind_refuseIf (refused : Refusals → Bool) (f : StoreFault) : Blind (refuseIf refused f) := by
  rintro b c ⟨journal, rfl⟩
  rw [runOn_refuseIf, runOn_refuseIf]
  exact ⟨rfl, journal, rfl⟩

theorem blind_probed (operation : String) (labels : List (String × Json)) {work : Action α} (h : Blind work) :
    Blind (probed operation labels work) := by
  intro b c hbc
  obtain ⟨houtcome, htwin⟩ := h b c hbc
  obtain ⟨e, hb⟩ := runOn_probed operation labels work b
  obtain ⟨e', hc⟩ := runOn_probed operation labels work c
  rw [hb, hc]
  exact ⟨houtcome, (Base.twin_noting _ _).symm.trans (htwin.trans (Base.twin_noting _ _))⟩

theorem blind_document (id : String) : Blind (document id) :=
  blind_bind (blind_refuseIf _ _) fun _ => blind_readStore _

theorem blind_replaceChunks (id : String) (cs : List Chunk) : Blind (replaceChunks id cs) :=
  blind_bind (blind_refuseIf _ _) fun _ => blind_bind blind_now fun _ => blind_writeStore _

end Action

end Compendium
