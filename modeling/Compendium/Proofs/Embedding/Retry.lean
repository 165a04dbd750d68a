import Mathlib.Data.ENat.Lattice
import Compendium.Embedding.Client
import Compendium.Proofs.Meter

/-!
How a call asks the endpoint. It sends its request again as long as the reply is transient and attempts are left, and
then the last reply decides: what the call comes to, and what is counted as trouble.
-/
namespace Compendium

namespace Embedding

variable (s : Sending) (model : String) (replies : Nat → Reply)

/-- The number of transient replies at the front, from the one on that comes after `sent` others; there may be no end
of them. -/
noncomputable def leading (sent : Nat) : ℕ∞ :=
  ⨅ k ∈ {k : Nat | (replies (sent + k)).isTransient = false}, (k : ℕ∞)

/-- The number of transient replies at the front, as long as there are no more than some number of them. -/
def retries : (sent more : Nat) → Nat
  | _, 0 => 0
  | sent, more + 1 => if (replies sent).isTransient then retries (sent + 1) more + 1 else 0

theorem isTransient_of_lt_retries {k : Nat} :
    ∀ {sent more : Nat}, k < retries replies sent more → (replies (sent + k)).isTransient = true := by
  induction k with
  | zero =>
    intro sent more h
    cases more with
    | zero => exact absurd h (Nat.not_lt_zero _)
    | succ more =>
      rw [retries] at h
      by_contra hlast
      rw [Nat.add_zero] at hlast
      simp [hlast] at h
  | succ k ih =>
    intro sent more h
    cases more with
    | zero => exact absurd h (Nat.not_lt_zero _)
    | succ more =>
      rw [retries] at h
      split at h
      · have := ih (Nat.lt_of_succ_lt_succ h)
        rwa [Nat.add_assoc, Nat.add_comm 1] at this
      · exact absurd h (Nat.not_lt_zero _)

/-- Sending again stops at its limit, or before it at a reply that is not transient. -/
theorem retries_spec (more : Nat) : ∀ sent, retries replies sent more = more ∨
    retries replies sent more < more ∧ (replies (sent + retries replies sent more)).isTransient = false := by
  induction more with
  | zero => exact fun _ => .inl rfl
  | succ more ih =>
    intro sent
    rw [retries]
    split
    · rcases ih (sent + 1) with h | ⟨hlt, hlast⟩
      · exact .inl (by rw [h])
      · rw [Nat.add_assoc, Nat.add_comm 1] at hlast
        exact .inr ⟨Nat.succ_lt_succ hlt, hlast⟩
    · next hlast => exact .inr ⟨Nat.succ_pos _, by simpa using hlast⟩

/-- The request is sent again once for each transient reply at the front, as far as the limit allows. -/
theorem retries_eq_min (sent more : Nat) : (retries replies sent more : ℕ∞) = min (leading replies sent) more := by
  have hle : (retries replies sent more : ℕ∞) ≤ leading replies sent := by
    refine le_iInf₂ fun k hk => ?_
    by_contra hlt
    have htransient := isTransient_of_lt_retries replies (by simpa using hlt)
    rw [hk] at htransient
    cases htransient
  rcases retries_spec replies more sent with h | ⟨hlt, hlast⟩
  · rw [h] at hle ⊢
    rw [min_eq_right hle]
  · have hge : leading replies sent ≤ retries replies sent more := iInf₂_le (retries replies sent more) hlast
    rw [le_antisymm hge hle, min_eq_left]
    exact_mod_cast hlt.le

def rounds : (more number sent : Nat) → List Move
  | 0, number, sent => attempt s model number (replies sent)
  | more + 1, number, sent =>
    attempt s model number (replies sent) ++ .waits (waitAfter number) :: rounds more (number + 1) (sent + 1)

/-- The recursion of an exchange is as many rounds as there are retries. -/
theorem exchange_eq_rounds (more : Nat) : ∀ number sent,
    exchange s model replies more number sent = rounds s model replies (retries replies sent more) number sent := by
  induction more with
  | zero => exact fun _ _ => rfl
  | succ more ih =>
    intro number sent
    rw [exchange, retries, ih]
    split
    · rw [rounds]
    · rw [rounds, List.append_nil]

variable {s model replies}

@[simp] theorem replies_attempt (number : Nat) (reply : Reply) :
    (attempt s model number reply).filterMap Move.reply? = [reply] := by
  rw [attempt]
  split <;> rfl

@[simp] theorem requests_attempt (number : Nat) (reply : Reply) :
    (attempt s model number reply).filterMap Move.sending? = [s] := by
  rw [attempt]
  split <;> rfl

@[simp] theorem waits_attempt (number : Nat) (reply : Reply) :
    (attempt s model number reply).filterMap Move.wait? = [] := by
  rw [attempt]
  split <;> rfl

theorem replies_rounds (more : Nat) : ∀ number sent,
    (rounds s model replies more number sent).filterMap Move.reply? =
      (List.range (more + 1)).map fun k => replies (sent + k) := by
  induction more with
  | zero => simp [rounds]
  | succ more ih =>
    intro number sent
    rw [rounds, List.filterMap_append, replies_attempt, List.filterMap_cons_none rfl, ih,
      List.range_succ_eq_map (n := more + 1), List.map_cons, List.map_map]
    simp [Function.comp_def, Nat.add_assoc, Nat.add_comm 1]

theorem requests_rounds (more : Nat) : ∀ number sent,
    (rounds s model replies more number sent).filterMap Move.sending? = List.replicate (more + 1) s := by
  induction more with
  | zero => simp [rounds]
  | succ more ih =>
    intro number sent
    rw [rounds, List.filterMap_append, requests_attempt, List.filterMap_cons_none rfl, ih, List.singleton_append,
      List.replicate_succ (n := more + 1)]

/-- There is a wait between two requests, and none before the first or behind the last. -/
theorem waits_rounds (more : Nat) : ∀ number sent,
    (rounds s model replies more number sent).filterMap Move.wait? =
      (List.range more).map fun k => waitAfter (number + k) := by
  induction more with
  | zero => simp [rounds]
  | succ more ih =>
    intro number sent
    have hwait : Move.wait? (.waits (waitAfter number)) = some (waitAfter number) := rfl
    rw [rounds, List.filterMap_append, waits_attempt, List.nil_append, List.filterMap_cons_some hwait, ih,
      List.range_succ_eq_map, List.map_cons, List.map_map]
    simp [Function.comp_def, Nat.add_assoc, Nat.add_comm 1]

def AsciiKey (s : EmbeddingSettings) : Prop := ∀ key, s.key = some key → ∀ c ∈ key.toList, c.toNat < 128

theorem takeWhile_dropWhile_eq_nil_iff {α : Type} (p q : α → Bool) (hpq : ∀ a, q a = !p a) (l : List α) :
    (l.dropWhile p).takeWhile q = [] ↔ ∀ a ∈ l, p a = true := by
  induction l with
  | nil => simp
  | cons a r ih =>
    cases h : p a with
    | true => simpa [h] using ih
    | false => simp [h, hpq]

theorem drop_length_takeWhile {α : Type} (p : α → Bool) (l : List α) :
    l.drop (l.takeWhile p).length = l.dropWhile p := by
  have h := congrArg (List.drop (l.takeWhile p).length) (List.takeWhile_append_dropWhile (p := p) (l := l))
  rwa [List.drop_left, eq_comm] at h

/-- A request can be sent when what it says about itself is in ASCII. -/
theorem unsendable?_eq_none_iff {s : Sending} :
    unsendable? s = none ↔ ∀ a, s.authorization = some a → ∀ c ∈ a.toList, c.toNat < 128 := by
  cases ha : s.authorization with
  | none => simp [unsendable?, ha]
  | some a =>
    have hrun := takeWhile_dropWhile_eq_nil_iff (fun c : Char => decide (c.toNat < 128))
      (fun c => decide (128 ≤ c.toNat)) (fun c => by rw [← decide_not]; simp) a.toList
    simp only [unsendable?, ha, drop_length_takeWhile, Option.some.injEq, forall_eq']
    cases htake : (a.toList.dropWhile fun c => decide (c.toNat < 128)).takeWhile fun c => decide (128 ≤ c.toNat) with
    | nil => simpa using hrun.1 htake
    | cons c r => simpa [htake] using hrun

/-- Only the key can keep a request from being sent, when it is not in ASCII. -/
theorem unsendable?_sendingOf_eq_none_iff {s : EmbeddingSettings} (text : String) (timeout : Option Number.Numeral) :
    unsendable? (sendingOf s text timeout) = none ↔ AsciiKey s := by
  rw [unsendable?_eq_none_iff, AsciiKey, sendingOf]
  cases s.key with
  | none => simp
  | some key =>
    by_cases hempty : key.isEmpty
    · have : key.toList = [] := by simpa using hempty
      simp [this]
    · have hlabel : ∀ c ∈ "Bearer ".toList, c.toNat < 128 := by simp
      simp only [Option.bind_some, hempty, Bool.false_eq_true, if_false, Option.some.injEq, forall_eq',
        String.toList_append, List.mem_append]
      exact ⟨fun h c hc => h c (.inr hc), fun h c hc => hc.elim (hlabel c) (h c)⟩

def Call.last? (c : Call) : Option Reply := (c.moves.filterMap Move.reply?).getLast?

/-- A reply that is counted as trouble: the request was lost in transport, or refused. -/
def Reply.IsTrouble : Reply → Prop
  | .lost l => l.name ∉ unexpectedNames
  | .answer status _ => ¬(200 ≤ status ∧ status < 300)

instance (r : Reply) : Decidable r.IsTrouble :=
  match r with
  | .lost l => inferInstanceAs (Decidable (l.name ∉ unexpectedNames))
  | .answer status _ => inferInstanceAs (Decidable ¬(200 ≤ status ∧ status < 300))

theorem isSuccess_iff {status : Int} : isSuccess status = true ↔ 200 ≤ status ∧ status < 300 := by
  simp [isSuccess]

theorem isSome_troubleOf? (r : Reply) : (troubleOf? r).isSome = decide r.IsTrouble := by
  cases r with
  | lost l => by_cases h : l.name ∈ unexpectedNames <;> simp [troubleOf?, Reply.IsTrouble, h]
  | answer status body =>
    by_cases h : 200 ≤ status ∧ status < 300 <;> simp [troubleOf?, Reply.IsTrouble, isSuccess, h]

/-- Every call is timed once unless the meter is silent, and its time bears its trouble. -/
theorem recorded_measured (model : String) (duration : Float) (trouble : Option String) (m : Meter) :
    (measured model duration trouble m).recorded "vulnkb_embedding_request_duration" =
      m.recorded "vulnkb_embedding_request_duration" ++ if m.silent then [] else [.decimal duration] := by
  have htimed := Meter.picked_observe (Measurement.recorded? "vulnkb_embedding_request_duration")
    "vulnkb_embedding_request_duration" "Operation duration" "s" (.decimal duration)
      (some [("model", .text model)]) m rfl
  cases trouble with
  | none => exact htimed
  | some kind =>
    refine (Meter.picked_add _ _ _ _ _ _ _ rfl).trans ?_
    rw [show Measurement.recorded? _ (.add _ _ _) = none from rfl, Option.toList_none, ite_self, List.append_nil]
    exact htimed

/-- Trouble counts as one error, and nothing else does. -/
theorem added_measured (model : String) (duration : Float) (trouble : Option String) (m : Meter) :
    (measured model duration trouble m).added "vulnkb_embedding_errors_total" =
      m.added "vulnkb_embedding_errors_total" ++
        if m.silent then [] else if trouble.isSome then [.whole 1] else [] := by
  have htimed := Meter.picked_observe (Measurement.added? "vulnkb_embedding_errors_total")
    "vulnkb_embedding_request_duration" "Operation duration" "s" (.decimal duration)
      (some [("model", .text model)]) m rfl
  rw [show Measurement.added? _ (.record _ _ _) = none from rfl, Option.toList_none, ite_self,
    List.append_nil] at htimed
  cases trouble with
  | none =>
    refine htimed.trans ?_
    simp [Meter.added]
  | some kind =>
    refine (Meter.picked_add _ _ _ _ _ _ _ rfl).trans ?_
    rw [Meter.timed, Meter.silent_observe]
    exact congrArg (· ++ _) htimed

/-- A reply never comes to it that nothing was asked. -/
theorem ofReply_ne_notAttempted (r : Reply) : ofReply r ≠ .error (.embedding .notAttempted) := by
  cases r with
  | lost l =>
    rw [ofReply]
    split <;> simp
  | answer status body =>
    rw [ofReply]
    split
    · simp
    · split
      · simp
      · rw [ofPayload]
        split
        · simp
        · split
          · simp
          · simp
          · dsimp only
            split_ifs <;> simp

/-- The law of sending again: a call that has something to send sends it once more for each transient reply at the
front, up to its attempts, waits in between, and has the outcome of the last reply. -/
structure Retried (s : EmbeddingSettings) (replies : Nat → Reply) (sent : Nat) (text : String)
    (timeout : Option Number.Numeral) (m : Meter) (c : Call) : Prop where
  times : (c.waits.length : ℕ∞) = min (leading replies sent) (s.attempts - 1).toNat
  waits : c.waits = Embedding.waits c.times
  requests : c.requests = List.replicate (c.waits.length + 1) (sendingOf s text timeout)
  earlier : ∀ k < c.waits.length, (replies (sent + k)).isTransient = true
  last : c.last? = some (replies (sent + c.waits.length))
  unreachable : ∀ l, c.last? = some (.lost l) → l.name ∉ unexpectedNames →
    c.outcome = .error (.embedding (.unreachable l.detail))
  refused : ∀ status body, c.last? = some (.answer status body) → ¬(200 ≤ status ∧ status < 300) →
    c.outcome = .error (.embedding (.refused status body))
  unreadable : ∀ status body, c.last? = some (.answer status body) → 200 ≤ status ∧ status < 300 →
    Json.parse? (withoutMark body.toList) = none → c.outcome = .error (.embedding (.notJson body))
  read : ∀ status body payload, c.last? = some (.answer status body) → 200 ≤ status ∧ status < 300 →
    Json.parse? (withoutMark body.toList) = some payload → c.outcome = ofPayload payload
  /-- One duration is recorded, unless the meter is silent. -/
  duration : (c.meter.recorded "vulnkb_embedding_request_duration").length =
    (m.recorded "vulnkb_embedding_request_duration").length + if m.silent then 0 else 1
  /-- One error is counted if the last reply is trouble, unless the meter is silent. -/
  errors : ∀ reply, c.last? = some reply → c.meter.added "vulnkb_embedding_errors_total" =
    m.added "vulnkb_embedding_errors_total" ++ if m.silent then [] else if reply.IsTrouble then [.whole 1] else []
  attempted : c.outcome ≠ .error (.embedding .notAttempted)

/-- A call with something to send goes through its rounds, and the last reply decides. -/
theorem call_eq_rounds {s : EmbeddingSettings} {text : String} (htext : Text.isBlankText text = false)
    (hkey : AsciiKey s) (replies : Nat → Reply) (sent : Nat) (m : Meter) (timeout : Option Number.Numeral) :
    let w := retries replies sent (s.attempts - 1).toNat
    call s replies sent text m timeout =
      ⟨ofReply (replies (sent + w)), rounds (sendingOf s text timeout) s.model replies w 1 sent,
        measured s.model 0.0 (troubleOf? (replies (sent + w))) m⟩ := by
  have hsend : unsendable? (sendingOf s text timeout) = none := (unsendable?_sendingOf_eq_none_iff text timeout).2 hkey
  simp only [call, htext, Bool.false_eq_true, if_false, hsend, exchange_eq_rounds, ofMoves, replies_rounds]
  simp [List.range_succ, List.getLast?_append]

theorem last?_call {s : EmbeddingSettings} {text : String} (htext : Text.isBlankText text = false)
    (hkey : AsciiKey s) (replies : Nat → Reply) (sent : Nat) (m : Meter) (timeout : Option Number.Numeral) :
    (call s replies sent text m timeout).last? =
      some (replies (sent + retries replies sent (s.attempts - 1).toNat)) := by
  rw [call_eq_rounds htext hkey, Call.last?, replies_rounds, List.range_succ]
  simp

/-- What a call comes to is what its last reply comes to. -/
theorem last_decides {s : EmbeddingSettings} {text : String} (htext : Text.isBlankText text = false)
    (hkey : AsciiKey s) (replies : Nat → Reply) (sent : Nat) (m : Meter) (timeout : Option Number.Numeral) :
    ∃ last, (call s replies sent text m timeout).last? = some last ∧
      (call s replies sent text m timeout).outcome = ofReply last :=
  ⟨_, last?_call htext hkey replies sent m timeout, by rw [call_eq_rounds htext hkey]⟩

/-- With a text to embed and a key that can be sent, every call keeps the law of sending again, whatever the endpoint
replies and however often its replies are transient. -/
theorem sends_again_while_transient {s : EmbeddingSettings} {text : String} (htext : Text.isBlankText text = false)
    (hkey : AsciiKey s) (replies : Nat → Reply) (sent : Nat) (m : Meter) (timeout : Option Number.Numeral) :
    Retried s replies sent text timeout m (call s replies sent text m timeout) := by
  have hcall := call_eq_rounds htext hkey replies sent m timeout
  have hlast := last?_call htext hkey replies sent m timeout
  generalize hw : retries replies sent (s.attempts - 1).toNat = w at hcall hlast
  generalize call s replies sent text m timeout = c at hcall hlast ⊢
  have hwaits : c.waits = (List.range w).map fun k => waitAfter (k + 1) := by
    rw [hcall, Call.waits, waits_rounds]
    simp only [Nat.add_comm 1]
  have hrequests : c.requests = List.replicate (w + 1) (sendingOf s text timeout) := by
    rw [hcall, Call.requests, requests_rounds]
  have hlength : c.waits.length = w := by rw [hwaits, List.length_map, List.length_range]
  have houtcome : ∀ reply, c.last? = some reply → c.outcome = ofReply reply := by
    intro reply hreply
    obtain rfl := Option.some.inj (hlast.symm.trans hreply)
    rw [hcall]
  exact {
    times := by
      rw [hlength, ← hw, retries_eq_min]
    waits := by
      rw [Call.times, hrequests, List.length_replicate, hwaits, Embedding.waits, Nat.add_sub_cancel]
    requests := by
      rw [hlength, hrequests]
    earlier := by
      rw [hlength, ← hw]
      exact fun k hk => isTransient_of_lt_retries replies hk
    last := by
      rw [hlength, hlast]
    unreachable := by
      intro l hl hname
      rw [houtcome _ hl]
      simp [ofReply, hname]
    refused := by
      intro status body hl hstatus
      rw [houtcome _ hl]
      simp [ofReply, mt isSuccess_iff.1 hstatus]
    unreadable := by
      intro status body hl hstatus hparse
      rw [houtcome _ hl]
      simp [ofReply, isSuccess_iff.2 hstatus, hparse]
    read := by
      intro status body payload hl hstatus hparse
      rw [houtcome _ hl]
      simp [ofReply, isSuccess_iff.2 hstatus, hparse]
    duration := by
      rw [hcall, recorded_measured, List.length_append]
      cases m.silent <;> rfl
    errors := by
      intro reply hreply
      obtain rfl := Option.some.inj (hlast.symm.trans hreply)
      rw [hcall, added_measured, isSome_troubleOf?]
      simp
    attempted := by
      rw [houtcome _ hlast]
      exact ofReply_ne_notAttempted _ }

theorem asciiKey_default : AsciiKey {} := fun _ h => by cases h

/-- Two failed connections and an answer that refuses. -/
def flaky (number : Nat) : Reply := if number < 2 then .lost ⟨"ConnectError", "refused"⟩ else .answer 503 "busy"

/-- Two connections fail, and the third request is refused. -/
theorem sends_again_while_flaky :
    Text.isBlankText "x" = false ∧ AsciiKey {} ∧ Retried {} flaky 0 "x" none {} (call {} flaky 0 "x" {}) :=
  ⟨by decide, asciiKey_default, sends_again_while_transient (by decide) asciiKey_default flaky 0 {} none⟩

/-- A key that is not in ASCII cannot stand in a request, so that none is sent. -/
theorem key_outside_ascii_sends_nothing :
    Text.isBlankText "x" = false ∧ (call { key := some "é" } flaky 0 "x" {}).requests = [] ∧
      ¬ Retried { key := some "é" } flaky 0 "x" none {} (call { key := some "é" } flaky 0 "x" {}) := by
  have hnone : (call { key := some "é" } flaky 0 "x" {}).requests = [] := rfl
  refine ⟨by decide, hnone, fun h => ?_⟩
  have hrequests := h.requests
  rw [hnone, List.replicate_succ] at hrequests
  cases hrequests

end Embedding

end Compendium
