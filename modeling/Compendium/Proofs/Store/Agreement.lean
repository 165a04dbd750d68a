import Compendium.Proofs.Store.Mirror

/-!
Stores of the two kinds answer alike. Each call is made to a store in memory and to a database, both empty at first,
and one clock may show another time than the other. The callers promise what the tables rely on: times that are
there, ids that are their own, and logs of universal time.
-/
namespace Compendium

inductive Call where
  | put (doc : Document)
  | document (id : String)
  | atPath (path : String)
  | ids
  | documentsOf (category : Option String)
  | delete (id : String)
  | categories
  | documentCount
  | replace (id : String) (cs : List Chunk)
  | deleteChunks (id : String)
  | chunksOf (id : String)
  | candidates (category : Option String)
  | chunkCount
  | indexedCount
  | addLog (l : RetrievalLog)
  | logsOf (conversation message : String) (limit : Int)
  | deleteLog (id : String)
  | close

inductive Answer where
  | done
  | document (doc : Document)
  | found (doc : Option Document)
  | ids (ids : List String)
  | documents (docs : List Document)
  | categories (names : List String)
  | chunks (cs : List Chunk)
  | candidates (ks : List Candidate)
  | logs (ls : List RetrievalLog)
  | count (n : Nat)

/-- Answers are the same; ids and candidates may come in any order. -/
inductive Answer.Matches : Answer → Answer → Prop where
  | same (a : Answer) : Matches a a
  | ids {ids ids' : List String} (h : ids.Perm ids') : Matches (.ids ids) (.ids ids')
  | candidates {ks ks' : List Candidate} (h : ks.Perm ks') : Matches (.candidates ks) (.candidates ks')

/-- Two calls fail for one reason, or both succeed and their answers match. -/
inductive Agreeing : Except Fault Answer → Except Fault Answer → Prop where
  | answered {a a' : Answer} (h : a.Matches a') : Agreeing (.ok a) (.ok a')
  | failed (e : Fault) : Agreeing (.error e) (.error e)

namespace Store

/-- What a change answers and leaves behind; one that fails leaves the store as it was. -/
def settled (s : Store) : Except Fault Store → Except Fault Answer × Store
  | .ok s' => (.ok .done, s')
  | .error e => (.error e, s)

def answering {α : Type} (s : Store) (shown : α → Answer) (r : Reading α) : Except Fault Answer × Store :=
  (r.outcome.map shown, s)

def run (now : Time) (s : Store) : Call → Except Fault Answer × Store
  | .put doc => s.settled (s.put now doc)
  | .document id => s.answering .document (s.document id)
  | .atPath path => s.answering .found (s.atPath? path)
  | .ids => s.answering .ids s.ids
  | .documentsOf category => s.answering .documents (s.documentsOf category)
  | .delete id => s.settled (s.delete id)
  | .categories => s.answering .categories s.categories
  | .documentCount => s.answering .count s.documentCount
  | .replace id cs => s.settled (s.replace now id cs)
  | .deleteChunks id => s.settled (s.deleteChunks id)
  | .chunksOf id => s.answering .chunks (s.chunksOf id)
  | .candidates category => s.answering .candidates (s.candidates category)
  | .chunkCount => s.answering .count s.chunkCount
  | .indexedCount => s.answering .count s.indexedCount
  | .addLog l => s.settled (s.addLog l)
  | .logsOf conversation message limit => s.answering .logs (s.logsOf now conversation message limit)
  | .deleteLog id => s.settled (s.deleteLog id)
  | .close => s.settled (.ok s.close)

end Store

/-- What callers promise of a call to a store that answers as `s` does: documents bring both times, and keep the
time of making while they are stored; chunks name their document, and their ids and indexes are their own; logs are
new, of universal time, and no two of one time; no limit is negative. -/
def Call.Promised (s : Store) : Call → Prop
  | .put doc => doc.Dated ∧ ∀ old, (s.document doc.id).outcome = .ok old → doc.created = old.created
  | .replace id cs =>
    (∀ c ∈ cs, c.document = id ∧ c.Storable) ∧ (cs.map Chunk.index).Nodup ∧ (cs.map Chunk.id).Nodup ∧
      ∀ other held, other ≠ id → (s.chunksOf other).outcome = .ok held →
        ∀ k ∈ held, ∀ c ∈ cs, c.id ≠ k.id
  | .addLog l =>
    l.Storable ∧ ∀ now limit held, (s.logsOf now "" "" limit).outcome = .ok held →
      ∀ k ∈ held, l.id ≠ k.id ∧ l.created.micros ≠ k.created.micros
  | .logsOf _ _ limit => 0 ≤ limit
  | _ => True

def Call.Fits : Call → Prop
  | .put doc => doc.kept = doc
  | .replace _ cs => ∀ c ∈ cs, fitsColumn c.index = true ∧ c.kept = c
  | .logsOf _ _ limit => fitsColumn limit = true
  | _ => True

/-- A call, and what the clocks of two stores show when they take it. -/
structure Step where
  call : Call
  here : Time
  there : Time

def Promising : List Step → Store → Prop
  | [], _ => True
  | k :: rest, s => k.call.Promised s ∧ Promising rest (s.run k.here k.call).2

/-- A sequence of calls to two stores is answered alike at every step. -/
def Agree : List Step → Store → Store → Prop
  | [], _, _ => True
  | k :: rest, s, s' =>
    Agreeing (s.run k.here k.call).1 (s'.run k.there k.call).1 ∧
      Agree rest (s.run k.here k.call).2 (s'.run k.there k.call).2

namespace Store

/-- One call to both: they agree, and the states that it leaves mirror each other. -/
inductive Stepped : Except Fault Answer × Store → Except Fault Answer × Store → Prop where
  | both {r r' : Except Fault Answer} {m : Memory} {d : Database} (ha : Agreeing r r') (h : Mirrors m d) :
    Stepped (r, .memory m) (r', .table d)

variable {m : Memory} {d : Database}

/-- A question that is answered alike is a step of both stores. -/
theorem stepped_same (h : Mirrors m d) {α : Type} (shown : α → Answer) {r r' : Reading α}
    (he : r'.outcome = r.outcome) :
    Stepped ((memory m).answering shown r) ((table d).answering shown r') := by
  refine .both ?_ h
  rw [he]
  cases r.outcome with
  | ok a => exact .answered (.same _)
  | error e => exact .failed e

theorem stepped_settled (h : Mirrors m d) {r : Except Fault Memory} {r' : Except Fault Database} (ha : Alike r r') :
    Stepped ((memory m).settled (r.map .memory)) ((table d).settled (r'.map .table)) := by
  cases ha with
  | changed h' => exact .both (.answered (.same _)) h'
  | refused e => exact .both (.failed e) h

/-- The promise of a log, read off the memory: its id is not there yet. -/
theorem fresh_of_promised (h : Mirrors m d) {l : RetrievalLog} (hp : (Call.addLog l).Promised (memory m)) :
    l.id ∉ m.logs.map RetrievalLog.id := by
  intro hm
  obtain ⟨k, hk, he⟩ := List.mem_map.1 hm
  have hall : m.logs.filter (RetrievalLog.belongsTo "" "") = m.logs := List.filter_eq_self.2 fun _ _ => rfl
  have hlogs : ((memory m).logsOf default "" "" m.logs.length).outcome = .ok (Memory.newestFirst m.logs) := by
    change m.logsOf "" "" m.logs.length = _
    rw [Memory.logsOf, hall, Mirrors.inOneOrder_of_storable h.logs, if_pos rfl, upTo, if_pos (by omega),
      List.take_of_length_le (by simp [Memory.newestFirst])]
  exact (hp.2 default _ _ hlogs k (List.mem_mergeSort.2 hk)).1 he.symm

/-- The promise of chunks, read off the memory. -/
theorem apart_of_promised (h : Mirrors m d) {id : String} {cs : List Chunk}
    (hp : (Call.replace id cs).Promised (memory m)) :
    ∀ e ∈ m.chunks, e.1 ≠ id → ∀ k ∈ e.2, ∀ c ∈ cs, c.id ≠ k.id := by
  intro e he hne
  refine hp.2.2.2 e.1 e.2 hne ?_
  change Except.ok (m.chunksOf e.1) = _
  rw [Memory.chunksOf, (Keyed.get?_eq_some_iff h.owners).2 he]
  rfl

/-- A call that keeps its promises and whose numbers fit is answered alike, as long as no store is closed. -/
theorem run_agree (h : Mirrors m d) {c : Call} (hp : c.Promised (memory m)) (hf : c.Fits) (hc : c ≠ .close)
    (now later : Time) : Stepped (run now (memory m) c) (run later (table d) c) := by
  cases c with
  | put doc => exact stepped_settled h (h.put_alike later ⟨hp.1, hf⟩ hp.2)
  | document id => exact stepped_same h _ (h.document_eq id)
  | atPath path => exact stepped_same h _ (h.atPath_eq path)
  | ids =>
    obtain ⟨ids, hids, hperm⟩ := h.ids_perm
    refine .both ?_ h
    change Agreeing (.ok (.ids m.ids)) (d.ids.outcome.map .ids)
    rw [hids]
    exact .answered (.ids hperm.symm)
  | documentsOf category => exact stepped_same h _ (h.documentsOf_eq category)
  | delete id => exact stepped_settled h (h.delete_alike id)
  | categories => exact stepped_same h _ h.categories_eq
  | documentCount => exact stepped_same h _ h.documentCount_eq
  | replace id cs =>
    have hlasting : ∀ c ∈ cs, c.document = id ∧ c.Lasting :=
      fun c hc => ⟨(hp.1 c hc).1, (hp.1 c hc).2, (hf c hc).2⟩
    have hfit : ∀ c ∈ cs, fitsColumn c.index = true := fun c hc => (hf c hc).1
    exact stepped_settled h (h.replace_alike later hlasting hp.2.1 hp.2.2.1 (apart_of_promised h hp) hfit)
  | deleteChunks id => exact stepped_settled h (h.deleteChunks_alike id)
  | chunksOf id => exact stepped_same h _ (h.chunksOf_eq id)
  | candidates category =>
    obtain ⟨ks, hks, hperm⟩ := h.candidates_perm category
    refine .both ?_ h
    change Agreeing (.ok (.candidates (m.candidates category))) ((d.candidates category).outcome.map .candidates)
    rw [hks]
    exact .answered (.candidates hperm.symm)
  | chunkCount => exact stepped_same h _ h.chunkCount_eq
  | indexedCount => exact stepped_same h _ h.indexedCount_eq
  | addLog l => exact stepped_settled h (h.addLog_alike hp.1 (fresh_of_promised h hp))
  | logsOf conversation message limit => exact stepped_same h _ (h.logsOf_eq later conversation message hp hf)
  | deleteLog id => exact stepped_settled h (h.deleteLog_alike id)
  | close => exact absurd rfl hc

/-- From states that mirror each other any such sequence of calls is answered alike; closing may only come last. -/
theorem agree_of_mirrors {steps : List Step} {m : Memory} {d : Database} (h : Mirrors m d)
    (hp : Promising steps (memory m)) (hf : ∀ k ∈ steps, k.call.Fits)
    (hc : ∀ k ∈ steps.dropLast, k.call ≠ .close) : Agree steps (memory m) (table d) := by
  induction steps generalizing m d with
  | nil => trivial
  | cons k rest ih =>
    by_cases hk : k.call = .close
    -- The states no longer mirror each other once one of them is closed, so nothing may be left to ask.
    · have hlast : rest = [] := by
        by_contra hne
        refine hc k ?_ hk
        rw [List.dropLast_cons_of_ne_nil hne]
        exact List.mem_cons_self
      subst hlast
      rw [Agree, hk]
      exact ⟨.answered (.same _), trivial⟩
    · have hstep := run_agree h hp.1 (hf k List.mem_cons_self) hk k.here k.there
      have hrest := hp.2
      rw [Agree]
      generalize run k.here (memory m) k.call = x at hstep hrest ⊢
      generalize run k.there (table d) k.call = y at hstep ⊢
      cases hstep with
      | both ha h' =>
        refine ⟨ha, ih h' hrest (fun k' hk' => hf k' (List.mem_cons_of_mem k hk')) fun k' hk' => hc k' ?_⟩
        cases rest with
        | nil => cases hk'
        | cons k'' rest => exact List.mem_cons_of_mem k hk'

/-- An empty store in memory and an empty database answer every sequence of calls alike, as long as the callers keep
their promises, indexes, limits and times fit into a column, and no call follows the closing of the stores. -/
theorem kinds_agree (path : String) {steps : List Step} (hp : Promising steps empty)
    (hf : ∀ k ∈ steps, k.call.Fits) (hc : ∀ k ∈ steps.dropLast, k.call ≠ .close) :
    Agree steps empty (.table ⟨path, true, {}⟩) :=
  agree_of_mirrors (mirrors_empty path) hp hf hc

/-- Calls that come while both clocks stand still at the beginning of 1970. -/
def atOnce (calls : List Call) : List Step := calls.map fun c => ⟨c, Time.ofUnixMicros 0, Time.ofUnixMicros 0⟩

def note : Document := ⟨"a", "X", "t", "c", "X/t.md", some (Time.ofUnixMicros 0), some (Time.ofUnixMicros 0)⟩

def noteChunk (index : Int) : Chunk := ⟨"p", "a", index, "c", some [⟨1⟩], some (Time.ofUnixMicros 0)⟩

def noteLog : RetrievalLog := ⟨"l", "", "", "q", "", ["a"], Time.ofUnixMicros 0, none⟩

theorem dated_note : note.Dated := ⟨⟨_, rfl, by decide⟩, ⟨_, rfl, by decide⟩⟩

theorem promised_noteChunk (index : Int) :
    (Call.replace "a" [noteChunk index]).Promised (empty.run (Time.ofUnixMicros 0) (.put note)).2 := by
  refine ⟨?_, List.nodup_singleton _, List.nodup_singleton _, ?_⟩
  · intro c hc
    rw [List.mem_singleton.1 hc]
    exact ⟨rfl, rfl, ⟨_, rfl, by decide⟩⟩
  · rintro other held - ⟨⟩
    exact nofun

/-- A note comes, is indexed, changed, found, and goes again. -/
def visit : List Step :=
  atOnce [.put note, .replace "a" [noteChunk 0], .put { note with content := "d" }, .candidates (some "x"),
    .addLog noteLog, .logsOf "" "" 50, .delete "a", .document "a", .close]

theorem promising_visit : Promising visit empty := by
  refine ⟨⟨dated_note, nofun⟩, promised_noteChunk 0, ⟨⟨dated_note.created, dated_note.updated⟩, ?_⟩,
    trivial, ⟨⟨by decide, rfl, rfl⟩, ?_⟩, ?_, trivial, trivial, trivial, trivial⟩
  · rintro old ⟨⟩
    rfl
  · intro now limit held hh k hk
    have hnone : Except.ok (upTo limit (Memory.newestFirst [])) = Except.ok held := hh
    cases hnone
    simp [upTo, Memory.newestFirst] at hk
  · exact (by decide : (0 : Int) ≤ 50)

/-- A note comes, is indexed, changed, found, and goes again. -/
theorem kinds_agree_small :
    Promising visit empty ∧ (∀ k ∈ visit, k.call.Fits) ∧ (∀ k ∈ visit.dropLast, k.call ≠ .close) ∧
      Agree visit empty (.table ⟨unfiledPath, true, {}⟩) := by
  have hf : ∀ k ∈ visit, k.call.Fits := by
    simp only [visit, atOnce, List.forall_mem_map, List.forall_mem_cons, List.not_mem_nil, false_implies, implies_true,
      Call.Fits, noteChunk]
    exact ⟨rfl, ⟨⟨by decide, rfl⟩, trivial⟩, rfl, trivial, trivial, by decide, trivial, trivial, trivial,
      trivial⟩
  have hc : ∀ k ∈ visit.dropLast, k.call ≠ .close := by simp [visit, atOnce]
  exact ⟨promising_visit, hf, hc, kinds_agree unfiledPath promising_visit hf hc⟩

/-- Calls that keep every promise, and that empty stores of the two kinds yet answer differently. -/
def Parting (steps : List Step) : Prop :=
  Promising steps empty ∧ ¬ Agree steps empty (.table ⟨unfiledPath, true, {}⟩)

/-- A note that was made at an offset of a microsecond from universal time. -/
def offsetNote : Document := { note with created := some { Time.ofUnixMicros 0 with offset := some 1 } }

theorem dated_offsetNote : offsetNote.Dated := ⟨⟨_, rfl, by decide⟩, ⟨_, rfl, by decide⟩⟩

/-- Memory has room for any number, keeps the least offset, and works on after closing; a database does none of it. -/
theorem kinds_part :
    Parting (atOnce [.logsOf "" "" (Number.twoTo 63)]) ∧
      Parting (atOnce [.put note, .replace "a" [noteChunk (Number.twoTo 63)]]) ∧
      Parting (atOnce [.put offsetNote, .document "a"]) ∧
      Parting (atOnce [.close, .documentCount]) := by
  refine ⟨⟨⟨Int.natCast_nonneg _, trivial⟩, ?_⟩,
    ⟨⟨⟨dated_note, nofun⟩, promised_noteChunk _, trivial⟩, ?_⟩,
    ⟨⟨⟨dated_offsetNote, nofun⟩, trivial, trivial⟩, ?_⟩, ⟨trivial, trivial, trivial⟩, ?_⟩
  · rintro ⟨h, -⟩
    change Agreeing (.ok _) (.error _) at h
    cases h
  · rintro ⟨-, h, -⟩
    change Agreeing (.ok _) (.error _) at h
    cases h
  · rintro ⟨-, h, -⟩
    change Agreeing (.ok (.document offsetNote)) (offsetNote.row.read.outcome.map .document) at h
    rw [dated_offsetNote.read_row] at h
    obtain ⟨⟨⟩⟩ := h
  · rintro ⟨-, h, -⟩
    change Agreeing (.ok _) (.error _) at h
    cases h

end Store

end Compendium
