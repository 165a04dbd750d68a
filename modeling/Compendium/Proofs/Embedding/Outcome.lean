import Compendium.Proofs.Embedding.Retry
import Compendium.Proofs.Number.Range

/-!
What a call can come to. It settles when it gives a vector that can be stored or fails as embedding does; the failures
of other families that get past the client are told one by one.
-/
namespace Compendium.Embedding

open Number (leastTooLarge)

/-- A call settles with a vector that is not empty and all of whose components are finite, or with a failure of
embedding. -/
def Settles : Except Fault Embedding → Prop
  | .ok v => v ≠ [] ∧ ∀ x ∈ v, x.isFinite = true
  | .error e => ∃ cause, e = .embedding cause

@[simp] theorem settles_ok_iff {v : Embedding} :
    Settles (.ok v) ↔ v ≠ [] ∧ ∀ x ∈ v, x.isFinite = true := Iff.rfl

@[simp] theorem settles_error_iff {e : Fault} : Settles (.error e) ↔ ∃ cause, e = .embedding cause := Iff.rfl

/-- A value of regular shape whose first component that is no number in double precision is a whole number too large
for it. -/
def TooLarge (raw : Json) : Prop :=
  (∀ v ∈ (unfold maxLevels [] [raw]).2, v.list? = none) ∧
    ∃ before n after, (unfold maxLevels [] [raw]).2 = before ++ .number (.whole n) :: after ∧
      (∀ v ∈ before, ∃ x, component v = .ok x) ∧ leastTooLarge ≤ n.natAbs

/-- A reply whose failure gets past the client: a loss that it does not expect, or a vector with a number that is too
large. -/
def Escapes : Reply → Prop
  | .lost l => l.name ∈ unexpectedNames
  | .answer status body => (200 ≤ status ∧ status < 300) ∧
    ∃ payload raw, Json.parse? (withoutMark body.toList) = some payload ∧ firstVector? payload = some raw ∧
      TooLarge raw

/-- Only a whole number can be too large. -/
theorem component_eq_tooLarge_iff (v : Json) :
    component v = .error .tooLarge ↔ ∃ n : Int, v = .number (.whole n) ∧ leastTooLarge ≤ n.natAbs := by
  constructor
  · intro h
    unfold component at h
    split at h
    · cases h
    · cases h
    · cases h
    · next n =>
      split at h
      · cases h
      · next hnone => exact ⟨n, rfl, (Number.ofInt?_eq_none_iff n).1 hnone⟩
    · split at h <;> cases h
    · cases h
    · cases h
  · rintro ⟨n, rfl, hn⟩
    rw [component, (Number.ofInt?_eq_none_iff n).2 hn]

/-- The first component that fails decides. -/
theorem mapM_component_eq_error_iff (values : List Json) (e : VectorFault) :
    values.mapM component = .error e ↔ ∃ before v after, values = before ++ v :: after ∧
      (∀ u ∈ before, ∃ x, component u = .ok x) ∧ component v = .error e := by
  induction values with
  | nil =>
    refine iff_of_false nofun ?_
    rintro ⟨before, v, after, h, _⟩
    cases before <;> cases h
  | cons u rest ih =>
    rw [List.mapM_cons]
    cases hu : component u with
    | error e' =>
      constructor
      · intro h
        cases h
        exact ⟨[], u, rest, rfl, nofun, hu⟩
      · rintro ⟨before, v, after, h, hbefore, hv⟩
        cases before with
        | nil =>
          obtain ⟨rfl, rfl⟩ := List.cons.inj h
          cases hu.symm.trans hv
          rfl
        | cons b before =>
          obtain ⟨rfl, -⟩ := List.cons.inj h
          obtain ⟨x, hx⟩ := hbefore u List.mem_cons_self
          cases hu.symm.trans hx
    | ok y =>
      have hrest : (do let y ← Except.ok y; let ys ← rest.mapM component; pure (y :: ys) : Except VectorFault _) =
          .error e ↔ rest.mapM component = .error e := by
        cases rest.mapM component <;> simp [bind, Except.bind, pure, Except.pure]
      rw [hrest, ih]
      constructor
      · rintro ⟨before, v, after, rfl, hbefore, hv⟩
        refine ⟨u :: before, v, after, rfl, fun w hw => ?_, hv⟩
        rcases List.mem_cons.1 hw with rfl | hw
        · exact ⟨y, hu⟩
        · exact hbefore w hw
      · rintro ⟨before, v, after, h, hbefore, hv⟩
        cases before with
        | nil =>
          obtain ⟨rfl, -⟩ := List.cons.inj h
          cases hu.symm.trans hv
        | cons b before =>
          obtain ⟨rfl, rfl⟩ := List.cons.inj h
          exact ⟨before, v, after, rfl, fun w hw => hbefore w (List.mem_cons_of_mem _ hw), hv⟩

theorem not_any_list_iff {values : List Json} :
    ¬ (values.any fun v => v.list?.isSome) = true ↔ ∀ v ∈ values, v.list? = none := by
  simp

/-- Numbers are refused for their size in one case alone. -/
theorem shapeAndFloats_eq_tooLarge_iff (raw : Json) : shapeAndFloats raw = .error .tooLarge ↔ TooLarge raw := by
  rw [shapeAndFloats, TooLarge]
  generalize unfold maxLevels [] [raw] = found
  obtain ⟨shape, values⟩ := found
  simp only
  by_cases hlist : (values.any fun v => v.list?.isSome) = true
  · rw [if_pos hlist]
    refine iff_of_false nofun ?_
    exact fun h => not_any_list_iff.2 h.1 hlist
  · rw [if_neg hlist]
    have hmap : (values.mapM component).map (fun xs => (shape, xs)) = .error .tooLarge ↔
        values.mapM component = .error .tooLarge := by
      cases values.mapM component <;> simp [Except.map]
    rw [hmap, mapM_component_eq_error_iff]
    constructor
    · rintro ⟨before, v, after, hvalues, hbefore, hv⟩
      obtain ⟨n, rfl, hn⟩ := (component_eq_tooLarge_iff v).1 hv
      exact ⟨not_any_list_iff.1 hlist, before, n, after, hvalues, hbefore, hn⟩
    · rintro ⟨_, before, n, after, hvalues, hbefore, hn⟩
      exact ⟨before, _, after, hvalues, hbefore, (component_eq_tooLarge_iff _).2 ⟨n, rfl, hn⟩⟩

/-- A payload settles unless its vector is too large. -/
theorem settles_ofPayload_iff (payload : Json) :
    Settles (ofPayload payload) ↔ ¬ ∃ raw, firstVector? payload = some raw ∧ TooLarge raw := by
  cases hraw : firstVector? payload with
  | none => exact iff_of_true (by simp [ofPayload, hraw]) (by simp)
  | some raw =>
    have htarget : (¬ ∃ raw', some raw = some raw' ∧ TooLarge raw') ↔ ¬ TooLarge raw := by simp
    rw [htarget, ← shapeAndFloats_eq_tooLarge_iff]
    cases hfound : shapeAndFloats raw with
    | error e =>
      cases e with
      | tooLarge => exact iff_of_false (by simp [ofPayload, hraw, hfound]) (by simp)
      | notNumeric text => exact iff_of_true (by simp [ofPayload, hraw, hfound]) (by simp)
      | notScalar what => exact iff_of_true (by simp [ofPayload, hraw, hfound]) (by simp)
      | ragged shape => exact iff_of_true (by simp [ofPayload, hraw, hfound]) (by simp)
    | ok found =>
      obtain ⟨shape, xs⟩ := found
      refine iff_of_true ?_ (by simp)
      simp only [ofPayload, hraw, hfound]
      split
      · simp
      · next hflat =>
        split
        · simp
        · next hfinite =>
          simp only [Bool.or_eq_true, not_or, List.isEmpty_iff] at hflat
          exact ⟨hflat.2, List.all_eq_true.1 (by simpa using hfinite)⟩

/-- Only lists have a level below them. -/
theorem level?_singleton (raw : Json) :
    level? [raw] = match raw with
      | .list items => some (items.length, items)
      | _ => none := by
  cases raw <;> simp [level?, Json.list?]

theorem length_le_length_unfold (fuel : Nat) :
    ∀ shape values, shape.length ≤ (unfold fuel shape values).1.length := by
  induction fuel with
  | zero => exact fun _ _ => le_rfl
  | succ fuel ih =>
    intro shape values
    rw [unfold]
    split
    · exact le_trans (by simp) (ih _ _)
    · exact le_rfl

/-- A value has one dimension when it is a list none of whose items can be gone into. -/
theorem unfold_eq_singleton {raw : Json} {n : Nat} {values : List Json}
    (h : unfold maxLevels [] [raw] = ([n], values)) : raw = .list values := by
  rw [maxLevels, unfold, level?_singleton] at h
  split at h
  · next n' items hlevel =>
    split at hlevel
    · obtain ⟨rfl, rfl⟩ := Prod.mk.inj (Option.some.inj hlevel)
      rw [unfold] at h
      split at h
      · next n' deeper _ =>
        have hle := (length_le_length_unfold _ _ _).trans_eq (congrArg (fun found => found.1.length) h)
        simp at hle
      · exact congrArg Json.list (Prod.mk.inj h).2
    · cases hlevel
  · cases (Prod.mk.inj h).1

/-- A payload gives a vector read off a flat list, all of it finite. -/
theorem ofPayload_eq_ok {payload : Json} {v : Embedding} (h : ofPayload payload = .ok v) :
    ∃ items xs, firstVector? payload = some (.list items) ∧ (∀ x ∈ items, x.list? = none) ∧
      items.mapM component = .ok xs ∧ v = ofFloats xs := by
  rw [ofPayload] at h
  split at h
  · cases h
  · next raw hraw =>
    split at h
    · cases h
    · cases h
    · next shape xs hfound =>
      dsimp only at h
      split_ifs at h with hflat hfinite
      obtain rfl := Except.ok.inj h
      simp only [Bool.or_eq_true, not_or, bne_iff_ne, ne_eq, not_not] at hflat
      obtain ⟨n, rfl⟩ := List.length_eq_one_iff.1 hflat.1
      rw [shapeAndFloats] at hfound
      generalize hunfold : unfold maxLevels [] [raw] = found at hfound
      obtain ⟨shape, values⟩ := found
      dsimp only at hfound
      split at hfound
      · cases hfound
      · next hlist =>
        cases hmap : values.mapM component with
        | error e =>
          rw [hmap] at hfound
          cases hfound
        | ok ys =>
          rw [hmap] at hfound
          obtain ⟨rfl, rfl⟩ := Prod.mk.inj (Except.ok.inj hfound)
          exact ⟨values, ys, hraw.trans (congrArg some (unfold_eq_singleton hunfold)), not_any_list_iff.1 hlist, hmap,
            rfl⟩

/-- A reply settles the call unless its failure gets past the client. -/
theorem settles_ofReply_iff (r : Reply) : Settles (ofReply r) ↔ ¬ Escapes r := by
  cases r with
  | lost l =>
    by_cases h : l.name ∈ unexpectedNames
    · exact iff_of_false (by simp [ofReply, h]) (not_not.2 h)
    · exact iff_of_true (by simp [ofReply, h]) h
  | answer status body =>
    by_cases hstatus : isSuccess status = true
    · cases hparse : Json.parse? (withoutMark body.toList) with
      | none =>
        refine iff_of_true (by simp [ofReply, hstatus, hparse]) ?_
        rintro ⟨_, payload, raw, hsome, _⟩
        rw [hparse] at hsome
        cases hsome
      | some payload =>
        have hreply : ofReply (.answer status body) = ofPayload payload := by simp [ofReply, hstatus, hparse]
        rw [hreply, settles_ofPayload_iff, Escapes, and_iff_right (isSuccess_iff.1 hstatus), hparse]
        simp
    · exact iff_of_true (by simp [ofReply, hstatus]) fun h => hstatus (isSuccess_iff.2 h.1)

/-- A vector that is read off the flat list of an answer, item by item. -/
def ReadOff (v : Embedding) (r : Reply) : Prop :=
  ∃ status body payload items xs, r = .answer status body ∧ Json.parse? (withoutMark body.toList) = some payload ∧
    firstVector? payload = some (.list items) ∧ (∀ x ∈ items, x.list? = none) ∧
      items.mapM component = .ok xs ∧
    v = ofFloats xs

/-- A vector is read off an answer item by item; nothing is made up. -/
theorem readOff_of_ofReply {r : Reply} {v : Embedding} (h : ofReply r = .ok v) : ReadOff v r := by
  cases r with
  | lost l =>
    rw [ofReply] at h
    split at h <;> cases h
  | answer status body =>
    rw [ofReply] at h
    split at h
    · cases h
    · split at h
      · cases h
      · next payload hparse =>
        obtain ⟨items, xs, hraw, hflat, hmap, hv⟩ := ofPayload_eq_ok h
        exact ⟨status, body, payload, items, xs, rfl, hparse, hraw, hflat, hmap, hv⟩

/-- A request that cannot be formed does not settle the call. -/
theorem not_settles_of_unsendable? {s : Sending} {f : Fault} (h : unsendable? s = some f) : ¬ Settles (.error f) := by
  rw [unsendable?] at h
  split at h
  · cases h
  · dsimp only at h
    split at h
    · cases h
    · obtain rfl := Option.some.inj h
      rintro ⟨cause, hc⟩
      cases hc

/-- A call settles exactly when its text is blank, or when its request can be sent and the failure of the last reply,
if it has one, does not get past the client. A vector is read off a flat list in the last reply. -/
theorem settles_iff (s : EmbeddingSettings) (replies : Nat → Reply) (sent : Nat) (text : String) (m : Meter)
    (timeout : Option Number.Numeral) :
    (Settles (call s replies sent text m timeout).outcome ↔
      Text.isBlankText text = true ∨ AsciiKey s ∧
        ∃ last, (call s replies sent text m timeout).last? = some last ∧ ¬ Escapes last) ∧
    ∀ v, (call s replies sent text m timeout).outcome = .ok v →
      ∃ last, (call s replies sent text m timeout).last? = some last ∧ ReadOff v last := by
  cases htext : Text.isBlankText text with
  | true =>
    refine ⟨iff_of_true (by simp [call, htext]) (.inl rfl), fun v hv => ?_⟩
    simp [call, htext] at hv
  | false =>
    rw [or_iff_right Bool.false_ne_true, ← unsendable?_sendingOf_eq_none_iff text timeout]
    cases hsend : unsendable? (sendingOf s text timeout) with
    | some f =>
      have hcall : (call s replies sent text m timeout).outcome = .error f := by simp [call, htext, hsend]
      rw [hcall]
      exact ⟨iff_of_false (not_settles_of_unsendable? hsend) (by simp), by simp⟩
    | none =>
      have hkey : AsciiKey s := (unsendable?_sendingOf_eq_none_iff text timeout).1 hsend
      obtain ⟨last, hlast, houtcome⟩ := last_decides htext hkey replies sent m timeout
      rw [and_iff_right rfl, hlast, houtcome, settles_ofReply_iff]
      exact ⟨by simp, fun v hv => ⟨last, rfl, readOff_of_ofReply hv⟩⟩

/-- The whole number that is all there is of the first embedding of a payload. -/
def onlyWhole? (payload : Json) : Option Int :=
  match firstVector? payload with
  | some (.list [.number (.whole n)]) => some n
  | _ => none

/-- One whole number that is too large, alone in its vector, is enough. -/
theorem escapes_of_onlyWhole? {text : List Char} {n : Int}
    (h : (Json.parse? (withoutMark text)).bind onlyWhole? = some n) (hn : leastTooLarge ≤ n.natAbs) :
    Escapes (.answer 200 (String.ofList text)) := by
  obtain ⟨payload, hpayload, hwhole⟩ := Option.bind_eq_some_iff.1 h
  rw [onlyWhole?] at hwhole
  split at hwhole
  · next k hraw =>
    obtain rfl := Option.some.inj hwhole
    refine ⟨by decide, payload, _, by rwa [String.toList_ofList], hraw, ?_, [], k, [], rfl, nofun, hn⟩
    intro v hv
    rw [List.mem_singleton.1 (show v ∈ [Json.number (.whole k)] from hv)]
    rfl
  · cases hwhole

/-- An answer whose only component is a one with 309 zeros. -/
def hugeAnswer : List Char :=
  "\x7b\"data\":[\x7b\"embedding\":[1".toList ++ List.replicate 309 '0' ++ "]\x7d]\x7d".toList

/-- A one with 309 zeros is no double-precision number, and the failure to make it one is none of embedding. -/
theorem huge_number_escapes :
    ¬ Settles (call {} (fun _ => .answer 200 (String.ofList hugeAnswer)) 0 "x" {}).outcome := by
  obtain ⟨last, hlast, houtcome⟩ := last_decides (s := {}) (show Text.isBlankText "x" = false by decide)
    asciiKey_default (fun _ => .answer 200 (String.ofList hugeAnswer)) 0 {} none
  rw [last?_call (by decide) asciiKey_default] at hlast
  obtain rfl := Option.some.inj hlast
  rw [houtcome, settles_ofReply_iff, not_not]
  exact escapes_of_onlyWhole? (n := 10 ^ 309) (by decide +kernel) (by decide +kernel)

end Compendium.Embedding
