import Compendium.Proofs.Store.Category

/-!
Logs come back newest first. Whatever else is done to a store of either kind, it holds the logs that were added and not
taken out again, and lists those that are asked for in the falling order of their times.
-/
namespace Compendium

def Call.added? : Call → Option RetrievalLog
  | .addLog l => some l
  | _ => none

def Call.logsLeft (held : List RetrievalLog) : Call → List RetrievalLog
  | .addLog l => held ++ [l]
  | .deleteLog id => held.filter fun l => l.id != id
  | _ => held

def addedLogs (calls : List (Time × Call)) : List RetrievalLog := calls.filterMap fun k => k.2.added?

def logsLeft (held : List RetrievalLog) (calls : List (Time × Call)) : List RetrievalLog :=
  calls.foldl (fun held k => k.2.logsLeft held) held

/-- A log that is asked for: of a message, if one is named, else of a conversation, if one is named, else any. -/
def RetrievalLog.Wanted (conversation message : String) (l : RetrievalLog) : Prop :=
  if message ≠ "" then l.message = message
  else if conversation ≠ "" then l.conversation = conversation
  else True

/-- All the logs of some that are asked for, in the falling order of their times. -/
structure NewestFirst (held : List RetrievalLog) (conversation message : String) (all : List RetrievalLog) : Prop where
  mem : ∀ l, l ∈ all ↔ l ∈ held ∧ l.Wanted conversation message
  falling : all.Pairwise fun a b => b.created.micros < a.created.micros

theorem RetrievalLog.belongsTo_iff {conversation message : String} {l : RetrievalLog} :
    l.belongsTo conversation message = true ↔ l.Wanted conversation message := by
  rw [belongsTo, Wanted]
  by_cases hm : message = ""
  · by_cases hc : conversation = "" <;> simp [hm, hc]
  · simp [hm]

/-- A call leaves logs that were there, in their order, and perhaps its own behind them. -/
theorem Call.logsLeft_sublist (held : List RetrievalLog) (c : Call) :
    (c.logsLeft held).Sublist (held ++ c.added?.toList) := by
  cases c with
  | addLog l => exact .refl _
  | deleteLog id => exact List.filter_sublist.trans (List.sublist_append_left _ _)
  | _ => exact List.sublist_append_left _ _

theorem addedLogs_cons (k : Time × Call) (rest : List (Time × Call)) :
    addedLogs (k :: rest) = k.2.added?.toList ++ addedLogs rest := by
  rw [addedLogs, List.filterMap_cons]
  cases k.2.added? <;> rfl

/-- No logs are left but those that were there and those that were added, in the order in which they came. -/
theorem logsLeft_sublist (held : List RetrievalLog) (calls : List (Time × Call)) :
    (logsLeft held calls).Sublist (held ++ addedLogs calls) := by
  induction calls generalizing held with
  | nil => exact List.sublist_append_left _ _
  | cons k rest ih =>
    rw [addedLogs_cons, ← List.append_assoc]
    exact (ih _).trans ((k.2.logsLeft_sublist held).append_right _)

namespace Memory

theorem newestFirst_perm (ls : List RetrievalLog) : (newestFirst ls).Perm ls := List.mergeSort_perm _ _

/-- Logs of different times come in the falling order of their times. -/
theorem newestFirst_strict {ls : List RetrievalLog} (hn : (ls.map fun l => l.created.micros).Nodup) :
    (newestFirst ls).Pairwise fun a b => b.created.micros < a.created.micros := by
  have hsorted : (newestFirst ls).Pairwise fun a b => decide (b.created.micros ≤ a.created.micros) = true :=
    List.pairwise_mergeSort (fun a b c hab hbc => by simp only [decide_eq_true_eq] at *; omega)
      (fun a b => by simp; omega) ls
  have hne : (newestFirst ls).Pairwise fun a b => a.created.micros ≠ b.created.micros :=
    List.pairwise_map.1 (((newestFirst_perm ls).map _).nodup_iff.2 hn)
  exact hsorted.imp₂ (fun a b hab hne => by have := of_decide_eq_true hab; omega) hne

end Memory

namespace Store

inductive SameLogs : Store → Store → Prop where
  | memory {m m' : Memory} (logs : m'.logs = m.logs) : SameLogs (.memory m) (.memory m')
  | table {d d' : Database} (isOpen : d'.isOpen = d.isOpen) (logs : d'.tables.logs = d.tables.logs) :
      SameLogs (.table d) (.table d')

inductive KeepsLogs (ls : List RetrievalLog) : Store → Prop where
  | memory {m : Memory} (logs : m.logs = ls) : KeepsLogs ls (.memory m)
  | table {d : Database} (isOpen : d.isOpen = true) (rows : d.tables.logs = ls.map LogRow.ofLog) :
      KeepsLogs ls (.table d)

theorem New.keepsLogs {s : Store} (h : s.New) : s.KeepsLogs [] := by
  cases h with
  | memory => exact .memory rfl
  | table path => exact .table rfl rfl

section
variable {ls : List RetrievalLog} {s s' s'' : Store} {id : String}

theorem SameLogs.refl (s : Store) : SameLogs s s := by
  cases s with
  | memory m => exact .memory rfl
  | table d => exact .table rfl rfl

theorem SameLogs.trans (h : SameLogs s s') (h' : SameLogs s' s'') : SameLogs s s'' := by
  cases h with
  | memory logs =>
    cases h' with
    | memory logs' => exact .memory (logs'.trans logs)
  | table isOpen logs =>
    cases h' with
    | table isOpen' logs' => exact .table (isOpen'.trans isOpen) (logs'.trans logs)

theorem SameLogs.logsOf_eq (h : SameLogs s s') (now : Time) (conversation message : String) (limit : Int) :
    logsOf now conversation message limit s' = logsOf now conversation message limit s := by
  cases h with
  | memory logs => simp only [logsOf, Memory.logsOf, logs]
  | table isOpen logs => simp only [logsOf, Database.logsOf, Database.reading, isOpen, logs]

theorem KeepsLogs.same (h : s.KeepsLogs ls) (hs : SameLogs s s') : s'.KeepsLogs ls := by
  cases hs with
  | memory logs =>
    cases h with
    | memory held => exact .memory (logs.trans held)
  | table isOpen logs =>
    cases h with
    | table wasOpen rows => exact .table (isOpen.trans wasOpen) (logs.trans rows)

/-! Documents and chunks come and go beside the logs. -/

theorem sameLogs_writing {d : Database} {outcome : Except Fault Tables} (h : (d.writing outcome).map .table = .ok s')
    (hlogs : ∀ t, outcome = .ok t → t.logs = d.tables.logs) : SameLogs (.table d) s' := by
  rw [Database.writing] at h
  split at h
  next hopen =>
    cases outcome with
    | ok t =>
      cases h
      exact .table rfl (hlogs t rfl)
    | error e => cases h
  next => cases h

theorem sameLogs_put {now : Time} {doc : Document} (h : put now doc s = .ok s') : SameLogs s s' := by
  cases s with
  | memory m =>
    cases h
    exact .memory rfl
  | table d =>
    refine sameLogs_writing h fun t ht => ?_
    cases ht
    rw [Tables.putDocument]
    split <;> rfl

theorem sameLogs_delete (h : delete id s = .ok s') : SameLogs s s' := by
  cases s with
  | memory m =>
    rw [delete, Memory.delete] at h
    split at h <;> cases h
    exact .memory rfl
  | table d =>
    refine sameLogs_writing h fun t ht => ?_
    split at ht <;> cases ht
    rfl

theorem sameLogs_replace {now : Time} {cs : List Chunk} (h : replace now id cs s = .ok s') : SameLogs s s' := by
  cases s with
  | memory m =>
    rw [replace, Memory.replace] at h
    split at h <;> cases h
    exact .memory rfl
  | table d =>
    rw [replace] at h
    cases hr : d.replace now id cs with
    | error e => simp [hr, Except.map] at h
    | ok d' =>
      obtain ⟨-, rows, -, -, -, rfl⟩ := database_replace_eq_ok hr
      simp only [hr, Except.map, Except.ok.injEq] at h
      subst h
      exact .table rfl rfl

theorem sameLogs_deleteChunks (h : deleteChunks id s = .ok s') : SameLogs s s' := by
  cases s with
  | memory m =>
    cases h
    exact .memory rfl
  | table d =>
    refine sameLogs_writing h fun t ht => ?_
    cases ht
    rfl

/-! Logs come and go. -/

/-- A log with an id of its own is added. -/
theorem KeepsLogs.addLog (h : s.KeepsLogs ls) {l : RetrievalLog} (hfresh : l.id ∉ ls.map RetrievalLog.id) :
    ∃ s', addLog l s = .ok s' ∧ s'.KeepsLogs (ls ++ [l]) := by
  cases h with
  | @memory m logs => exact ⟨_, rfl, .memory (by rw [Memory.addLog, logs])⟩
  | @table d isOpen rows =>
    have hfree : ¬ d.tables.logs.any (fun r => r.id = l.id) = true := by
      rw [rows, List.any_map, List.any_eq_true]
      rintro ⟨k, hk, he⟩
      have hid : k.id = l.id := of_decide_eq_true he
      exact hfresh (hid ▸ List.mem_map_of_mem hk)
    refine ⟨.table { d with tables := { d.tables with logs := d.tables.logs ++ [LogRow.ofLog l] } }, ?_, ?_⟩
    · rw [Store.addLog, Database.addLog, Database.writing, if_pos isOpen, if_neg hfree]
      rfl
    · exact .table isOpen (by rw [rows, List.map_append]; rfl)

/-- Logs that have ids of their own go one by one; none goes under an id that none has. -/
theorem KeepsLogs.deleteLog (h : s.KeepsLogs ls) (hn : (ls.map RetrievalLog.id).Nodup) (id : String) :
    ((s.settled (deleteLog id s)).2).KeepsLogs (ls.filter fun l => l.id != id) := by
  have hstays : ¬ (ls.any fun l => l.id = id) = true → ls.filter (fun l => l.id != id) = ls := fun hnone =>
    List.filter_eq_self.2 fun l hl => by
      rw [Bool.not_eq_true, List.any_eq_false] at hnone
      simpa using hnone l hl
  cases h with
  | @memory m logs =>
    subst logs
    rw [Store.deleteLog, Memory.deleteLog]
    split
    next => exact .memory (Memory.Neat.eraseP_eq hn id)
    next hnone => exact .memory (hstays hnone).symm
  | @table d isOpen rows =>
    have hany : d.tables.logs.any (fun r => r.id = id) = ls.any fun l => l.id = id := by
      rw [rows, List.any_map]
      rfl
    rw [Store.deleteLog, Database.deleteLog, Database.writing, if_pos isOpen, hany]
    split
    next =>
      refine .table isOpen ?_
      change d.tables.logs.filter _ = _
      rw [rows, List.filter_map]
      rfl
    next hnone => exact .table isOpen (by rw [hstays hnone, rows])

/-- One call to a store that stays open: its logs are those that the call leaves. -/
theorem KeepsLogs.run (h : s.KeepsLogs ls) {c : Call} (hc : c ≠ .close)
    (hn : ((ls ++ c.added?.toList).map RetrievalLog.id).Nodup) (now : Time) :
    (s.run now c).2.KeepsLogs (c.logsLeft ls) := by
  have hids : (ls.map RetrievalLog.id).Nodup := hn.sublist ((List.sublist_append_left _ _).map _)
  cases c with
  | put doc => exact h.same (settled_rel (.refl s) fun s' hs' => sameLogs_put hs')
  | delete id => exact h.same (settled_rel (.refl s) fun s' hs' => sameLogs_delete hs')
  | replace id cs => exact h.same (settled_rel (.refl s) fun s' hs' => sameLogs_replace hs')
  | deleteChunks id => exact h.same (settled_rel (.refl s) fun s' hs' => sameLogs_deleteChunks hs')
  | addLog l =>
    have hfresh : l.id ∉ ls.map RetrievalLog.id := by
      rw [List.map_append, List.nodup_append] at hn
      exact fun hm => hn.2.2 _ hm l.id (List.mem_singleton_self _) rfl
    obtain ⟨s', hs', hlogged⟩ := h.addLog hfresh
    rw [Store.run, hs']
    exact hlogged
  | deleteLog id => exact h.deleteLog hids id
  | close => exact absurd rfl hc
  | _ => exact h

/-- After calls to a store that stays open, its logs are those that the calls leave. -/
theorem KeepsLogs.after {calls : List (Time × Call)} (hc : ∀ k ∈ calls, k.2 ≠ .close) (h : s.KeepsLogs ls)
    (hn : ((ls ++ addedLogs calls).map RetrievalLog.id).Nodup) : (s.after calls).KeepsLogs (logsLeft ls calls) := by
  induction calls generalizing s ls with
  | nil => exact h
  | cons k rest ih =>
    rw [List.forall_mem_cons] at hc
    rw [addedLogs_cons, ← List.append_assoc] at hn
    refine ih hc.2 (h.run hc.1 (hn.sublist ((List.sublist_append_left _ _).map _)) k.1) (hn.sublist ?_)
    exact ((k.2.logsLeft_sublist ls).append_right _).map _

/-- The logs of a store are listed newest first. -/
theorem KeepsLogs.listed (h : s.KeepsLogs ls) (hs : ∀ l ∈ ls, l.Storable) (now : Time)
    (conversation message : String)
    {limit : Int} (hl : 0 ≤ limit) (hf : (∃ m, s = .memory m) ∨ fitsColumn limit = true) :
    (logsOf now conversation message limit s).outcome =
      .ok ((Memory.newestFirst (ls.filter (RetrievalLog.belongsTo conversation message))).take limit.toNat) := by
  cases h with
  | memory logs =>
    subst logs
    exact Mirrors.logsOf_memory hs conversation message hl
  | table isOpen rows =>
    have hfits : fitsColumn limit = true := hf.resolve_left (by simp)
    exact Mirrors.logsOf_rows isOpen rows hs now conversation message hl hfits

end

theorem memory_settled (m : Memory) (r : Except Fault Memory) :
    ∃ m', ((memory m).settled (r.map .memory)).2 = .memory m' := by
  cases r with
  | ok m' => exact ⟨m', rfl⟩
  | error e => exact ⟨m, rfl⟩

theorem memory_after (m : Memory) (calls : List (Time × Call)) : ∃ m', (memory m).after calls = .memory m' := by
  induction calls generalizing m with
  | nil => exact ⟨m, rfl⟩
  | cons k rest ih =>
    obtain ⟨now, c⟩ := k
    obtain ⟨m', hm'⟩ : ∃ m', ((memory m).run now c).2 = .memory m' := by
      cases c with
      | delete | replace | deleteLog => exact memory_settled m _
      | _ => exact ⟨_, rfl⟩
    rw [after, List.foldl_cons, hm']
    exact ih m'

/-- After any calls to an empty store that stays open, in which logs of universal time are added that differ in their
ids and in their times, the logs left that are asked for come in the falling order of their times, up to any limit
that a column can hold; memory takes any other limit as well. In universal time the texts of times are in the order of
the times. -/
theorem newest_first {s : Store} (hnew : s.New) {calls : List (Time × Call)} (hopen : ∀ k ∈ calls, k.2 ≠ .close)
    (hstorable : ∀ l ∈ addedLogs calls, l.Storable) (hids : ((addedLogs calls).map RetrievalLog.id).Nodup)
    (htimes : ((addedLogs calls).map fun l => l.created.micros).Nodup) :
    (∀ (now : Time) (conversation message : String) (limit : Int), 0 ≤ limit →
      (s = empty ∨ limit < (Number.twoTo 63 : Int)) →
        ∃ all, NewestFirst (logsLeft [] calls) conversation message all ∧
          (logsOf now conversation message limit (s.after calls)).outcome = .ok (all.take limit.toNat)) ∧
      ∀ t u : Time, t.isValid = true → u.isValid = true → t.offset = some 0 → u.offset = some 0 →
        (t.iso < u.iso ↔ t.micros < u.micros) := by
  refine ⟨fun now conversation message limit hl hf => ?_, fun t u ht hu hto huo =>
    Time.iso_lt_iff_micros ht hu hto huo⟩
  have hleft : (logsLeft [] calls).Sublist (addedLogs calls) := logsLeft_sublist [] calls
  have hlogged : (s.after calls).KeepsLogs (logsLeft [] calls) := hnew.keepsLogs.after hopen hids
  let wanted := (logsLeft [] calls).filter (RetrievalLog.belongsTo conversation message)
  have hwanted : wanted.Sublist (addedLogs calls) := List.filter_sublist.trans hleft
  refine ⟨Memory.newestFirst wanted,
    ⟨fun l => ?_, Memory.newestFirst_strict (htimes.sublist (hwanted.map _))⟩, ?_⟩
  · rw [(Memory.newestFirst_perm wanted).mem_iff, List.mem_filter, RetrievalLog.belongsTo_iff]
  · refine hlogged.listed (fun l hl => hstorable l (hleft.subset hl)) now conversation message hl ?_
    refine hf.imp (fun he => ?_) fun hlt => ?_
    · rw [he]
      exact memory_after {} calls
    · have hroom : -(Number.twoTo 63 : Int) ≤ limit := by omega
      simp [fitsColumn, hroom, hlt]

def logAt (id conversation : String) (micros : Nat) : RetrievalLog :=
  ⟨id, conversation, "", "q", "", [], Time.ofUnixMicros micros, none⟩

/-- Logs that come out of order, one at a full second, and of which one goes again. -/
def logCalls : List (Time × Call) :=
  [.addLog (logAt "b" "x" 1500000), .addLog (logAt "c" "x" 2000000), .addLog (logAt "a" "x" 1000000),
    .deleteLog "c"].map fun c => (Time.ofUnixMicros 0, c)

/-- The log that is asked for is the newest one that is left. -/
theorem newest_first_small :
    (∀ k ∈ logCalls, k.2 ≠ .close) ∧ (∀ l ∈ addedLogs logCalls, l.Storable) ∧
      ((addedLogs logCalls).map RetrievalLog.id).Nodup ∧
        ((addedLogs logCalls).map fun l => l.created.micros).Nodup ∧
      ∃ all, NewestFirst (logsLeft [] logCalls) "x" "" all ∧
        (logsOf default "x" "" 1 ((table ⟨unfiledPath, true, {}⟩).after logCalls)).outcome = .ok (all.take 1) := by
  have hopen : ∀ k ∈ logCalls, k.2 ≠ .close := by simp [logCalls]
  have hstorable : ∀ l ∈ addedLogs logCalls, l.Storable := by
    simp only [logCalls, addedLogs, Call.added?, List.map_cons, List.map_nil, List.filterMap_cons, List.filterMap_nil,
      List.forall_mem_cons]
    exact ⟨⟨by decide, rfl, rfl⟩, ⟨by decide, rfl, rfl⟩, ⟨by decide, rfl, rfl⟩, nofun⟩
  have hids : ((addedLogs logCalls).map RetrievalLog.id).Nodup := by decide
  have htimes : ((addedLogs logCalls).map fun l => l.created.micros).Nodup := by decide
  refine ⟨hopen, hstorable, hids, htimes, ?_⟩
  exact (newest_first (.table unfiledPath) hopen hstorable hids htimes).1 default "x" "" 1 (by decide)
    (.inr (by decide))

/-- A database cannot take a limit that no column holds, even if there is nothing to list. -/
theorem limit_beyond_columns :
    0 ≤ (Number.twoTo 63 : Int) ∧
      ¬ ∃ ls, (logsOf default "" "" (Number.twoTo 63) (table ⟨unfiledPath, true, {}⟩)).outcome = .ok ls := by
  refine ⟨by decide, ?_⟩
  rintro ⟨ls, h⟩
  change Except.error Fault.numberTooLarge = Except.ok ls at h
  cases h

end Store

end Compendium
