import Mathlib.Algebra.BigOperators.Group.List.Basic
import Mathlib.Algebra.Order.Field.Rat
import Mathlib.Data.List.Forall2
import Mathlib.Data.List.Induction
import Mathlib.Tactic.NormNum
import Compendium.Probe
import Compendium.Proofs.Number.Exact

/-!
What nested probes tell of a run. The steps that are reached are those up to the first one that a failure leaves. Each
block among them has told of its end once, behind the blocks inside it: what left it, and the time that passed in it.
For each trace the last end of an operation is kept. Both follow by going through the steps one by one, with what has
been told so far as what each step adds to.
-/
namespace Compendium.Probe

open Number.Exact

variable {K : Type}

/-! What happens in a tree of steps. -/

mutual

def failure? : Step K → Option Fault
  | .wait _ => none
  | .raise failure => some failure
  | .guard catches body => (leaving? body).filter fun e => !catches e
  | .block _ _ _ body => leaving? body

/-- The failure that leaves steps in a row: the first one that leaves a step. -/
def leaving? : List (Step K) → Option Fault
  | [] => none
  | step :: rest => (failure? step).or (leaving? rest)

end

mutual

/-- A step without what is not reached in it. -/
def reached : Step K → Step K
  | .wait time => .wait time
  | .raise failure => .raise failure
  | .guard catches body => .guard catches (reachedIn body)
  | .block operation trace labels body => .block operation trace labels (reachedIn body)

def reachedIn : List (Step K) → List (Step K)
  | [] => []
  | step :: rest => reached step :: if (failure? step).isSome then [] else reachedIn rest

end

structure Span (K : Type) where
  operation : String
  trace : Option String
  labels : List (String × Json)
  body : List (Step K)

mutual

/-- The blocks of a step, each behind those inside it. -/
def spans : Step K → List (Span K)
  | .wait _ => []
  | .raise _ => []
  | .guard _ body => spansIn body
  | .block operation trace labels body => spansIn body ++ [⟨operation, trace, labels, body⟩]

def spansIn : List (Step K) → List (Span K)
  | [] => []
  | step :: rest => spans step ++ spansIn rest

end

mutual

/-- The times that pass in a step, in blocks or not. -/
def waits : Step K → List K
  | .wait time => [time]
  | .raise _ => []
  | .guard _ body => waitsIn body
  | .block _ _ _ body => waitsIn body

def waitsIn : List (Step K) → List K
  | [] => []
  | step :: rest => waits step ++ waitsIn rest

end

def callNames : List String := ["self", "msg", "level", "exc_info", "asctime"]

/-- The names that labels cannot bear: those of the logging call, and those of the fields that a probe adds. -/
def reserved : List String := callNames ++ ownFields ++ ["error"]

/-- A block whose trace is none or has a name, with labels that bear free names. -/
@[mk_iff]
structure Span.IsPlain (b : Span K) : Prop where
  trace : b.trace ≠ some ""
  labels : ∀ key ∈ Keyed.keys b.labels, key ∉ reserved

instance (b : Span K) : Decidable b.IsPlain := decidable_of_iff' _ (Span.isPlain_iff b)

mutual

/-- The blocks that are reached are blocks of the tree. -/
theorem isPlain_reached : ∀ step : Step K, (∀ b ∈ spans step, b.IsPlain) →
    ∀ b ∈ spans (reached step), b.IsPlain
  | .wait _, h => h
  | .raise _, h => h
  | .guard _ body, h => isPlain_reachedIn body h
  | .block operation trace labels body, h => by
    rw [spans, List.forall_mem_append, List.forall_mem_singleton] at h
    rw [reached, spans, List.forall_mem_append, List.forall_mem_singleton]
    exact ⟨isPlain_reachedIn body h.1, h.2.trace, h.2.labels⟩

theorem isPlain_reachedIn : ∀ steps : List (Step K), (∀ b ∈ spansIn steps, b.IsPlain) →
    ∀ b ∈ spansIn (reachedIn steps), b.IsPlain
  | [], h => h
  | step :: rest, h => by
    rw [spansIn, List.forall_mem_append] at h
    rw [reachedIn, spansIn, List.forall_mem_append]
    refine ⟨isPlain_reached step h.1, ?_⟩
    split
    · exact fun b hb => absurd hb List.not_mem_nil
    · exact isPlain_reachedIn rest h.2

end

mutual

/-- What is not reached has no part in the failure. -/
theorem failure?_reached : ∀ step : Step K, failure? (reached step) = failure? step
  | .wait _ => rfl
  | .raise _ => rfl
  | .guard _ body => by rw [reached, failure?, failure?, leaving?_reachedIn body]
  | .block _ _ _ body => by rw [reached, failure?, failure?, leaving?_reachedIn body]

/-- What is not reached does not change which failure leaves the steps. -/
theorem leaving?_reachedIn : ∀ steps : List (Step K), leaving? (reachedIn steps) = leaving? steps
  | [] => rfl
  | step :: rest => by
    rw [reachedIn, leaving?, leaving?, failure?_reached step]
    cases failure? step with
    | none => simp [leaving?_reachedIn rest]
    | some e => rfl

end

/-! Records of ended blocks. -/

theorem setField_eq_put (key : String) (value : Json) (fields : List (String × Json)) :
    Json.setField key value fields = Keyed.put key value fields := by
  induction fields with
  | nil => rfl
  | cons f fields ih =>
    rw [Json.setField, Keyed.put, ih]
    split
    next h => rw [h]
    · rfl

/-- Fields with free names do not clash with the names of a logging call. -/
theorem clash?_eq_none {level : Level} {written : List String} {fields : List (String × Json)}
    (hwritten : ∀ key ∈ Keyed.keys fields, key ∉ written)
    (htaken : ∀ key ∈ Keyed.keys fields, key ∉ callNames) :
    Logger.clash? (.plain level) written fields = none := by
  have hfirst : (fields.map (·.1)).find? written.contains = none := by
    rw [List.find?_eq_none]
    intro key hkey
    simpa using hwritten key hkey
  have hsecond : (fields.map (·.1)).find? (Method.plain level).taken.contains = none := by
    rw [List.find?_eq_none]
    intro key hkey hin
    have := htaken key hkey
    simp_all [Method.taken, callNames]
  have hlevel : (fields.map (·.1)).contains "level" = false := by
    rw [List.contains_eq_mem, decide_eq_false_iff_not]
    exact fun hin => htaken "level" hin (by decide)
  simp only [Logger.clash?, hfirst, hsecond, Logger.clash?.level, hlevel, Bool.false_eq_true, if_false]

theorem overwriting?_eq_none {fields : List (String × Json)} (h : "asctime" ∉ Keyed.keys fields) :
    Logger.overwriting? fields = none := by
  rw [Logger.overwriting?, if_neg fun hin => h (Keyed.has_iff.1 hin)]

section
variable {labels : List (String × Json)}

/-- Labels with free names are not refused. -/
theorem refusal?_eq_none (h : ∀ key ∈ Keyed.keys labels, key ∉ reserved) : refusal? labels = none := by
  have hown : ∀ key ∈ Keyed.keys labels, key ∉ ownFields :=
    fun key hkey hin => h key hkey (by simp [reserved, hin])
  have hcall : ∀ key ∈ Keyed.keys labels, key ∉ callNames :=
    fun key hkey hin => h key hkey (by simp [reserved, hin])
  rw [refusal?, clash?_eq_none hown hcall, Option.none_or, overwriting?_eq_none fun hin => h _ hin (by decide)]

def errorFields : Option String → List (String × Json)
  | none => []
  | some e => if e.isEmpty then [] else [("error", .text e)]

theorem setField_of_not_mem {key : String} (value : Json) {fields : List (String × Json)}
    (h : key ∉ Keyed.keys fields) : Json.setField key value fields = fields ++ [(key, value)] := by
  rw [setField_eq_put, Keyed.put_of_not_mem value h]

theorem fieldsOf_eq (h : "error" ∉ Keyed.keys labels) (failure : Option String) :
    fieldsOf labels failure = ("ok", .bool failure.isNone) :: (labels ++ errorFields failure) := by
  cases failure with
  | none => simp [fieldsOf, errorFields]
  | some e =>
    rw [fieldsOf, errorFields]
    split
    · simp
    · rw [setField_of_not_mem _ h]

def IsPassedOn (key : String) : Prop := key ∉ Record.ownAttributes ∧ key ≠ "trace_id"

instance (key : String) : Decidable (IsPassedOn key) := inferInstanceAs (Decidable (_ ∧ _))

theorem passedOn_concat (fields : List (String × Json)) (f : String × Json) :
    Record.passedOn (fields ++ [f]) =
      if IsPassedOn f.1 then Keyed.put f.1 f.2 (Record.passedOn fields) else Record.passedOn fields := by
  have hshown : (Record.ownAttributes.contains f.1 || decide (f.1 = "trace_id")) = true ↔ ¬IsPassedOn f.1 := by
    rw [IsPassedOn, not_and_or]
    simp
  simp only [Record.passedOn, List.foldl_append, List.foldl_cons, List.foldl_nil, hshown, setField_eq_put]
  split <;> simp_all

/-- Fields of other names change nothing for a name. -/
theorem get?_passedOn_append {key : String} (before : List (String × Json)) {after : List (String × Json)}
    (h : key ∉ Keyed.keys after) :
    Keyed.get? key (Record.passedOn (before ++ after)) = Keyed.get? key (Record.passedOn before) := by
  induction after using List.reverseRecOn with
  | nil => rw [List.append_nil]
  | append_singleton after f ih =>
    rw [Keyed.keys, List.map_append, List.mem_append, not_or, List.map_singleton, List.mem_singleton] at h
    rw [← List.append_assoc, passedOn_concat]
    split
    · rw [Keyed.get?_put_of_ne _ _ (Ne.symm h.2), ih h.1]
    · exact ih h.1

/-- The last field of a name is the one that counts. -/
theorem get?_passedOn {key : String} (hkey : IsPassedOn key) (value : Json) (before : List (String × Json))
    {after : List (String × Json)} (hafter : key ∉ Keyed.keys after) :
    Keyed.get? key (Record.passedOn (before ++ (key, value) :: after)) = some value := by
  rw [List.append_cons, get?_passedOn_append _ hafter, passedOn_concat, if_pos hkey, Keyed.get?_put_self]

/-- A record tells whether a block went well and, where a failure with a name left it, that name. -/
structure Tells (labels : List (String × Json)) (failure : Option String) (r : Record) : Prop where
  ok : r.attribute? "ok" = some (.bool failure.isNone)
  error : failure ≠ some "" → r.attribute? "error" = failure.map .text

variable (h : ∀ key ∈ Keyed.keys labels, key ∉ reserved) (operation : String) (milliseconds : Float)
  (failure : Option String)
include h

theorem fields_callOf : (callOf operation milliseconds labels failure).fields =
    ("op", .text operation) :: ("ms", .number (.decimal milliseconds)) :: ("ok", .bool failure.isNone) ::
      (labels ++ errorFields failure) := by
  rw [callOf, fieldsOf_eq fun hin => h _ hin (by decide)]

omit operation milliseconds in
theorem not_mem_keys {key : String} (hkey : key ∈ reserved) (hne : key ≠ "error") :
    key ∉ Keyed.keys (labels ++ errorFields failure) := by
  rw [Keyed.keys, List.map_append, List.mem_append, not_or]
  refine ⟨fun hin => h key hin hkey, ?_⟩
  cases failure with
  | none => simp [errorFields]
  | some e =>
    rw [errorFields]
    split <;> simp [hne]

theorem not_mem_keys_callOf {key : String} (hkey : key ∈ callNames) :
    key ∉ Keyed.keys (callOf operation milliseconds labels failure).fields := by
  have hother : ∀ key ∈ callNames, key ≠ "op" ∧ key ≠ "ms" ∧ key ≠ "ok" ∧ key ≠ "error" := by decide
  obtain ⟨hop, hms, hok, herror⟩ := hother key hkey
  rw [fields_callOf h]
  simp only [Keyed.keys, List.map_cons, List.mem_cons, not_or]
  exact ⟨hop, hms, hok, not_mem_keys h failure (by simp [reserved, hkey]) herror⟩

omit h in
theorem attribute?_recordOf {key : String} (hkey : IsPassedOn key) {value : Json} (before : List (String × Json))
    {after : List (String × Json)}
    (hfields : (callOf operation milliseconds labels failure).fields = before ++ (key, value) :: after)
    (hafter : key ∉ Keyed.keys after) :
    (recordOf operation milliseconds labels failure).attribute? key = some value := by
  have hget := get?_passedOn hkey value before hafter
  rw [← hfields] at hget
  exact hget

/-- The record of a block tells whether it went well, and what failed. -/
theorem tells_recordOf : Tells labels failure (recordOf operation milliseconds labels failure) := by
  have hfields := fields_callOf h operation milliseconds failure
  constructor
  · exact attribute?_recordOf operation milliseconds failure (by decide) [_, _] hfields
      (not_mem_keys h failure (by decide) (by decide))
  · intro hname
    have hlabels : "error" ∉ Keyed.keys labels := fun hin => h _ hin (by decide)
    cases failure with
    | none =>
      rw [errorFields, List.append_nil] at hfields
      have hnone : "error" ∉ Keyed.keys (callOf operation milliseconds labels none).fields := by
        rw [hfields]
        simpa [Keyed.keys] using hlabels
      exact get?_passedOn_append [] hnone
    | some e =>
      have he : ¬e.isEmpty = true := by simpa using hname
      rw [errorFields, if_neg he, ← List.cons_append, ← List.cons_append, ← List.cons_append] at hfields
      exact attribute?_recordOf operation milliseconds (some e) (by decide) _ hfields List.not_mem_nil

/-- Its duration can be shown. -/
theorem durationDefect?_recordOf : (recordOf operation milliseconds labels failure).durationDefect? = none := by
  have hafter : "ms" ∉ Keyed.keys (("ok", .bool failure.isNone) :: (labels ++ errorFields failure)) := by
    have hrest : "ms" ∉ Keyed.keys (labels ++ errorFields failure) := not_mem_keys h failure (by decide) (by decide)
    simpa [Keyed.keys] using hrest
  have hms := attribute?_recordOf operation milliseconds failure (by decide) [_]
    (fields_callOf h operation milliseconds failure) hafter
  rw [Record.durationDefect?, Record.duration?, hms]

/-- An ended block writes the line of its record where records of its level are let through. -/
theorem write_callOf {l : Logger} (hl : Level.info.reaches l.threshold = true) (now : Time) :
    l.write now "probe" (callOf operation milliseconds labels failure) =
      .ok ((recordOf operation milliseconds labels failure).line now l.trace ++ "\n") := by
  have hclash : Logger.clash? (.plain .info) [] (callOf operation milliseconds labels failure).fields = none :=
    clash?_eq_none (fun _ _ => List.not_mem_nil) fun key hkey hin =>
      not_mem_keys_callOf h operation milliseconds failure hin hkey
  have hover : Logger.overwriting? (callOf operation milliseconds labels failure).fields = none :=
    overwriting?_eq_none (not_mem_keys_callOf h operation milliseconds failure (by decide))
  have hquiet : l.thresholdFor "vulnkb.probe" = l.threshold := if_neg (by decide)
  have htells : (callOf operation milliseconds labels failure).tellsFailure = false := by
    have hnone : Keyed.get? "exc_info" (callOf operation milliseconds labels failure).fields = none :=
      Keyed.get?_eq_none_iff.2 (not_mem_keys_callOf h operation milliseconds failure (by decide))
    rw [LogCall.tellsFailure, hnone]
    rfl
  have hrecord : (callOf operation milliseconds labels failure).record "probe" =
      recordOf operation milliseconds labels failure := by
    rw [LogCall.record, htells]
    rfl
  have hmethod : (callOf operation milliseconds labels failure).method = .plain .info := rfl
  have hsource : (callOf operation milliseconds labels failure).source = "vulnkb.probe" := rfl
  simp [Logger.write, hmethod, hsource, hclash, hover, hquiet, hrecord, Method.level, hl,
    durationDefect?_recordOf h operation milliseconds failure]

end

/-! What is kept of ended blocks. -/

def keepAll (ends : List (Span K × Finished K)) (timings : List (String × List (String × Finished K))) :
    List (String × List (String × Finished K)) :=
  ends.foldl (fun kept e => keep e.1.trace e.2 kept) timings

theorem keepAll_append (ends ends' : List (Span K × Finished K))
    (timings : List (String × List (String × Finished K))) :
    keepAll (ends ++ ends') timings = keepAll ends' (keepAll ends timings) := List.foldl_append

def lastEnd? (trace operation : String) (ends : List (Span K × Finished K)) : Option (Finished K) :=
  (ends.reverse.find? fun e => e.1.trace = some trace && e.2.operation = operation).map (·.2)

theorem lastEnd?_concat (t operation : String) (ends : List (Span K × Finished K)) (e : Span K × Finished K) :
    lastEnd? t operation (ends ++ [e]) =
      if e.1.trace = some t ∧ e.2.operation = operation then some e.2 else lastEnd? t operation ends := by
  rw [lastEnd?, List.reverse_append, List.reverse_singleton, List.singleton_append, List.find?_cons]
  split <;> simp_all [lastEnd?]

/-- The block that was kept is the last one of its trace and operation. -/
theorem get?_keep {trace : Option String} (htrace : trace ≠ some "") (f : Finished K)
    (timings : List (String × List (String × Finished K))) (t operation : String) :
    Keyed.get? operation ((Keyed.get? t (keep trace f timings)).getD []) =
      if trace = some t ∧ f.operation = operation then some f
      else Keyed.get? operation ((Keyed.get? t timings).getD []) := by
  cases trace with
  | none => simp [keep]
  | some t' =>
    have hname : ¬t'.isEmpty = true := by simpa using htrace
    rw [keep, if_neg hname]
    by_cases ht : t' = t
    · subst ht
      rw [Keyed.get?_put_self, Option.getD_some]
      by_cases ho : f.operation = operation
      · rw [ho, Keyed.get?_put_self, if_pos ⟨rfl, rfl⟩]
      · rw [Keyed.get?_put_of_ne _ _ ho, if_neg fun h => ho h.2]
    · rw [Keyed.get?_put_of_ne _ _ ht, if_neg fun h => ht (Option.some.inj h.1)]

/-- Of what is kept under a trace, the last end of an operation is found. -/
theorem get?_keepAll {ends : List (Span K × Finished K)} (hends : ∀ e ∈ ends, e.1.trace ≠ some "")
    (timings : List (String × List (String × Finished K))) (t operation : String) :
    Keyed.get? operation ((Keyed.get? t (keepAll ends timings)).getD []) =
      (lastEnd? t operation ends).or (Keyed.get? operation ((Keyed.get? t timings).getD [])) := by
  induction ends using List.reverseRecOn with
  | nil => rfl
  | append_singleton ends e ih =>
    rw [List.forall_mem_append, List.forall_mem_singleton] at hends
    rw [keepAll_append, keepAll, List.foldl_cons, List.foldl_nil, get?_keep hends.2, ih hends.1, lastEnd?_concat]
    split <;> rfl

/-- Clearing a trace forgets nothing else. -/
theorem timingsOf_clear (t t' : String) (s : State K) :
    timingsOf t' (clear (some t) s) = if t' = t then [] else timingsOf t' s := by
  rw [timingsOf, clear]
  split
  next h => rw [h, Keyed.get?_erase_self, Option.getD_none]
  next h => rw [Keyed.get?_erase_of_ne _ (Ne.symm h), timingsOf]

/-! Runs. -/

section
variable [Field K] [LinearOrder K]

/-- What is told of a block when it has ended: the failure that left it, and the time that passed in it, blocks inside
it included. -/
structure Reports (b : Span K) (f : Finished K) : Prop where
  operation : f.operation = b.operation
  labels : f.labels = b.labels
  failure : f.failure = (leaving? b.body).map fun e => e.kind.name
  milliseconds : f.milliseconds = (waitsIn b.body).sum * 1000

theorem exists_reports {blocks : List (Span K)} {ends : List (Finished K)} (h : List.Forall₂ Reports blocks ends)
    {f : Finished K} (hf : f ∈ ends) : ∃ b ∈ blocks, Reports b f := by
  induction h with
  | nil => cases hf
  | cons hb _ ih =>
    rcases List.mem_cons.1 hf with rfl | hf
    · exact ⟨_, List.mem_cons_self, hb⟩
    · obtain ⟨b, hin, hreports⟩ := ih hf
      exact ⟨b, List.mem_cons_of_mem _ hin, hreports⟩

/-- A run from a state accounts for blocks, times and a failure: nothing else has changed when it is over. -/
structure Accounts (blocks : List (Span K)) (times : List K) (failure : Option Fault) (s : State K)
    (out : Option Fault × State K) : Prop where
  failure : out.1 = failure
  clock : out.2.clock = s.clock + times.sum
  ends : ∃ ends, List.Forall₂ Reports blocks ends ∧ out.2.ended = s.ended ++ ends ∧
    out.2.timings = keepAll (blocks.zip ends) s.timings

theorem Accounts.refl (failure : Option Fault) (s : State K) : Accounts [] [] failure s (failure, s) where
  failure := rfl
  clock := by simp
  ends := ⟨[], .nil, by simp, rfl⟩

/-- Two runs in a row account for the blocks, and the times, of both. -/
theorem Accounts.trans {blocks blocks' : List (Span K)} {times times' : List K} {failure failure' : Option Fault}
    {s : State K} {out out' : Option Fault × State K} (h : Accounts blocks times failure s out)
    (h' : Accounts blocks' times' failure' out.2 out') :
    Accounts (blocks ++ blocks') (times ++ times') failure' s out' := by
  obtain ⟨ends, hreports, hended, htimings⟩ := h.ends
  obtain ⟨ends', hreports', hended', htimings'⟩ := h'.ends
  refine ⟨h'.failure, ?_, ends ++ ends', List.rel_append hreports hreports', ?_, ?_⟩
  · rw [h'.clock, h.clock, List.sum_append, add_assoc]
  · rw [hended', hended, List.append_assoc]
  · rw [htimings', htimings, List.zip_append hreports.length_eq, keepAll_append]

theorem finish_of_refusal?_eq_none {labels : List (String × Json)} (h : refusal? labels = none) (operation : String)
    (trace : Option String) (start : K) (failure : Option Fault) (s : State K) :
    finish operation trace labels start failure s =
      let f : Finished K := ⟨operation, labels, failure.map fun e => e.kind.name, (s.clock - start) * 1000, s.clock⟩
      (failure, { s with ended := s.ended ++ [f], timings := keep trace f s.timings }) := by
  simp only [finish, h]
  simp

/-- A block adds itself to what the work in it accounts for. -/
theorem Accounts.around {blocks : List (Span K)} {b : Span K} (hb : ∀ key ∈ Keyed.keys b.labels, key ∉ reserved)
    {work : State K → Option Fault × State K} {s : State K}
    (h : Accounts blocks (waitsIn b.body) (leaving? b.body) s (work s)) :
    Accounts (blocks ++ [b]) (waitsIn b.body) (leaving? b.body) s (around b.operation b.trace b.labels work s) := by
  obtain ⟨ends, hreports, hended, htimings⟩ := h.ends
  let f : Finished K := ⟨b.operation, b.labels, (leaving? b.body).map fun e => e.kind.name,
    ((work s).2.clock - s.clock) * 1000, (work s).2.clock⟩
  have hf : Reports b f :=
    ⟨rfl, rfl, rfl, by rw [← add_sub_cancel_left s.clock (waitsIn b.body).sum, ← h.clock]⟩
  rw [Probe.around, finish_of_refusal?_eq_none (refusal?_eq_none hb), h.failure]
  refine ⟨rfl, h.clock, ends ++ [f], List.rel_append hreports (.cons hf .nil), ?_, ?_⟩
  · rw [← List.append_assoc, ← hended]
  · rw [List.zip_append hreports.length_eq, keepAll_append, ← htimings]
    rfl

mutual

/-- What a step adds. -/
theorem accounts_run : ∀ step : Step K, (∀ b ∈ spans step, b.IsPlain) →
    ∀ s : State K, Accounts (spans (reached step)) (waits (reached step)) (failure? step) s (run step s)
  | .wait time, _, s => ⟨rfl, by simp [run, reached, waits], [], .nil, by simp [run], rfl⟩
  | .raise failure, _, s => Accounts.refl (some failure) s
  | .guard catches body, h, s => by
    have hbody := accounts_runAll body h s
    refine ⟨?_, hbody.clock, hbody.ends⟩
    rw [run, hbody.failure, failure?]
  | .block operation trace labels body, h, s => by
    rw [spans, List.forall_mem_append, List.forall_mem_singleton] at h
    have hbody := accounts_runAll body h.1 s
    rw [← leaving?_reachedIn body] at hbody
    have haround := Accounts.around (b := ⟨operation, trace, labels, reachedIn body⟩) h.2.labels hbody
    rw [run, failure?, ← leaving?_reachedIn body]
    exact haround

/-- What steps in a row add, up to the first one that a failure leaves. -/
theorem accounts_runAll : ∀ steps : List (Step K), (∀ b ∈ spansIn steps, b.IsPlain) →
    ∀ s : State K,
      Accounts (spansIn (reachedIn steps)) (waitsIn (reachedIn steps)) (leaving? steps) s (runAll steps s)
  | [], _, s => Accounts.refl none s
  | step :: rest, h, s => by
    rw [spansIn, List.forall_mem_append] at h
    have hstep := accounts_run step h.1 s
    rw [reachedIn, spansIn, waitsIn, leaving?, runAll]
    cases hrun : run step s with
    | mk failure s' =>
      rw [hrun] at hstep
      obtain rfl : failure = failure? step := hstep.failure
      cases hf : failure? step with
      | none =>
        rw [hf] at hstep
        exact hstep.trans (accounts_runAll rest h.2 s')
      | some e =>
        rw [hf] at hstep
        simpa [spansIn, waitsIn] using hstep

end

/-- An ended block is logged: with one line where records of its level are let through, which tells how it went. -/
def IsLogged (l : Logger) (f : Finished K) : Prop :=
  ∀ (now : Time) (milliseconds : Float),
    l.write now "probe" (callOf f.operation milliseconds f.labels f.failure) =
        .ok ((recordOf f.operation milliseconds f.labels f.failure).line now l.trace ++ "\n") ∧
      Tells f.labels f.failure (recordOf f.operation milliseconds f.labels f.failure)

/-- What a run of nested probes tells. The failure that leaves the steps leaves the run as it is, and the clock has
moved by all the times that were reached. Every block that was reached has told of its end, behind the blocks inside
it, with one line in the log. Under each trace the last end of an operation is found, or what was there before, and
clearing a trace forgets nothing else. -/
theorem nested_probes_tell {steps : List (Step K)} (h : ∀ b ∈ spansIn steps, b.IsPlain) (s : State K) {l : Logger}
    (hl : Level.info.reaches l.threshold = true) :
    (runAll steps s).1 = leaving? steps ∧
    (runAll steps s).2.clock = s.clock + (waitsIn (reachedIn steps)).sum ∧
    (∃ ends, List.Forall₂ Reports (spansIn (reachedIn steps)) ends ∧
      (runAll steps s).2.ended = s.ended ++ ends ∧ (∀ f ∈ ends, IsLogged l f) ∧
      ∀ t operation, Keyed.get? operation (timingsOf t (runAll steps s).2) =
        (lastEnd? t operation ((spansIn (reachedIn steps)).zip ends)).or (Keyed.get? operation (timingsOf t s))) ∧
    ∀ t t', timingsOf t' (clear (some t) (runAll steps s).2) =
      if t' = t then [] else timingsOf t' (runAll steps s).2 := by
  obtain ⟨hfailure, hclock, ends, hreports, hended, htimings⟩ := accounts_runAll steps h s
  have hplain : ∀ b ∈ spansIn (reachedIn steps), b.IsPlain := isPlain_reachedIn steps h
  refine ⟨hfailure, hclock, ⟨ends, hreports, hended, fun f hf => ?_, fun t operation => ?_⟩,
    fun t t' => timingsOf_clear t t' _⟩
  · obtain ⟨b, hb, hreports⟩ := exists_reports hreports hf
    have hlabels : ∀ key ∈ Keyed.keys f.labels, key ∉ reserved := hreports.labels ▸ (hplain b hb).labels
    exact fun now milliseconds => ⟨write_callOf hlabels f.operation milliseconds f.failure hl now,
      tells_recordOf hlabels f.operation milliseconds f.failure⟩
  · rw [timingsOf, htimings, get?_keepAll fun e he => (hplain e.1 (List.of_mem_zip he).1).trace, timingsOf]

/-- A scan in which one embedding fails, which is caught, and another goes well, before time runs out. -/
def timedOutScan : List (Step ℚ) :=
  [.block "scan" (some "t") [("items", .nat 2)]
    [.wait 1,
      .guard (fun _ => true) [.block "embed" (some "t") [] [.wait (1 / 2), .raise (.raised .key "x")], .wait 8],
      .block "embed" (some "t") [] [.wait 2], .raise .timeout, .wait 4]]

/-- Within a scan one embedding fails and another does not, and then the scan runs out of time. -/
theorem nested_probes_tell_timedOutScan :
    (∀ b ∈ spansIn timedOutScan, b.IsPlain) ∧ Level.info.reaches (Logger.threshold ⟨20, none⟩) = true ∧
      ∃ f₁ f₂ f₃ : Finished ℚ, (runAll timedOutScan ⟨0, [], []⟩).1 = some .timeout ∧
        (runAll timedOutScan ⟨0, [], []⟩).2.ended = [f₁, f₂, f₃] ∧
        (f₁.operation, f₁.failure, f₁.milliseconds) = ("embed", some "KeyError", 500) ∧
        (f₂.operation, f₂.failure, f₂.milliseconds) = ("embed", none, 2000) ∧
        (f₃.operation, f₃.failure, f₃.milliseconds) = ("scan", some "TimeoutError", 3500) ∧
        (∀ f ∈ [f₁, f₂, f₃], IsLogged ⟨20, none⟩ f) ∧
        Keyed.get? "embed" (timingsOf "t" (runAll timedOutScan ⟨0, [], []⟩).2) = some f₂ ∧
        timingsOf "t" (clear (some "t") (runAll timedOutScan ⟨0, [], []⟩).2) = [] := by
  have hplain : ∀ b ∈ spansIn timedOutScan, b.IsPlain := by decide
  have hinfo : Level.info.reaches (Logger.threshold ⟨20, none⟩) = true := by decide
  obtain ⟨hfailure, -, ⟨ends, hreports, hended, hlogged, hkept⟩, hclear⟩ :=
    nested_probes_tell hplain ⟨0, [], []⟩ hinfo
  have hspans : spansIn (reachedIn timedOutScan) =
      [⟨"embed", some "t", [], [.wait (1 / 2), .raise (.raised .key "x")]⟩, ⟨"embed", some "t", [], [.wait 2]⟩,
        ⟨"scan", some "t", [("items", .nat 2)],
          [.wait 1, .guard (fun _ => true) [.block "embed" (some "t") [] [.wait (1 / 2), .raise (.raised .key "x")]],
            .block "embed" (some "t") [] [.wait 2], .raise .timeout]⟩] := rfl
  rw [hspans] at hreports hkept
  obtain ⟨f₁, _, h₁, hreports₂, rfl⟩ := List.forall₂_cons_left_iff.1 hreports
  obtain ⟨f₂, _, h₂, hreports₃, rfl⟩ := List.forall₂_cons_left_iff.1 hreports₂
  obtain ⟨f₃, _, h₃, hreports₄, rfl⟩ := List.forall₂_cons_left_iff.1 hreports₃
  obtain rfl := List.forall₂_nil_left_iff.1 hreports₄
  refine ⟨hplain, hinfo, f₁, f₂, f₃, hfailure, hended, ?_, ?_, ?_, hlogged, ?_, by simpa using hclear "t" "t"⟩
  · rw [h₁.operation, h₁.failure, h₁.milliseconds]
    norm_num [leaving?, failure?, waitsIn, waits, Fault.kind, Kind.name]
  · rw [h₂.operation, h₂.failure, h₂.milliseconds]
    norm_num [leaving?, failure?, waitsIn, waits]
  · rw [h₃.operation, h₃.failure, h₃.milliseconds]
    norm_num [leaving?, failure?, waitsIn, waits, Fault.kind, Kind.name]
  · rw [hkept]
    simp [lastEnd?, h₂.operation, h₃.operation]

end

end Compendium.Probe
