import Compendium.Files.Tree
import Compendium.Meter
import Compendium.Probe
import Compendium.Store.Basic

/-! The knowledge base at work: its clock, store and files, the provider of embeddings, and what was logged,
printed and measured so far. -/
namespace Compendium

/-- What comes of asking for an embedding. -/
inductive Outcome where
  | vector (v : Embedding)
  | fails (cause : Fault)
  | hangs

/-- A provider of embeddings: what it makes of a text, given the texts that it was asked for before. -/
abbrev Provider := List String → String → Outcome

/-- Documents whose store calls fail. -/
structure Refusals where
  replacing : String → Bool := fun _ => false
  reading : String → Bool := fun _ => false
  listing : String → Bool := fun _ => false

/-- What the outside sees happen. -/
inductive Entry where
  | logged (level : Level) (time : Time) (record : Record)
  | printed (text : String)

/-- The lines of an entry at and above a level; what is printed counts where it is wanted. -/
def Entry.shown (threshold : Nat) (prints : Bool) : Entry → String
  | .logged level time record => if level.reaches threshold then record.line time none ++ "\n" else ""
  | .printed text => if prints then text else ""

/-- What the searches so far came to. -/
structure Tally where
  queries : Nat := 0
  emptyResults : Nat := 0
  fallbacks : Nat := 0
  relaxed : Nat := 0

/-- Microseconds from the beginning of 1970 to the beginning of 2024. -/
def firstMoment : Nat := 1704067200 * second

structure Base where
  /-- Microseconds since the beginning of 1970. -/
  clock : Nat := firstMoment
  /-- How many ids were given out. -/
  issued : Nat := 0
  store : Store := .empty
  files : Tree := {}
  /-- The contents of the databases among the files. -/
  databases : List (Place × Tables) := []
  provider : Provider := fun _ _ => .fails .cancelled
  /-- The texts that the provider was asked for. -/
  asked : List String := []
  refusals : Refusals := {}
  tally : Tally := {}
  meter : Meter := {}
  journal : List Entry := []

/-- Work on a knowledge base. What was done before a failure stays done. -/
abbrev Action := ExceptT Fault (StateM Base)

namespace Action

variable {α : Type}

def update (f : Base → Base) : Action Unit := modify f

/-- Does work and gives its outcome; a failure does not spread. -/
def attempt (work : Action α) : Action (Except Fault α) := ExceptT.mk (do return .ok (← work.run))

def ofExcept : Except Fault α → Action α
  | .ok a => pure a
  | .error e => throw e

def now : Action Time := do return Time.ofUnixMicros (← get).clock

/-- The id of a number: at least four digits behind a mark. -/
def idText (n : Nat) : String :=
  let digits := (toString n).toList
  "id-" ++ String.ofList (List.replicate (4 - digits.length) '0' ++ digits)

def newId : Action String := do
  let n := (← get).issued + 1
  modify fun b => { b with issued := n }
  return idText n

def note (e : Entry) : Action Unit := modify fun b => { b with journal := b.journal ++ [e] }

def print (s : String) : Action Unit := note (.printed (s ++ "\n"))

def logRecord (level : Level) (r : Record) : Action Unit := do note (.logged level (← now) r)

/-- Logs a message with fields; `source` is the part of the program and `origin` the operation in it. -/
def log (level : Level) (source origin message : String) (fields : List (String × Json)) : Action Unit :=
  logRecord level (Record.ofCall level source origin message fields)

def measure (f : Meter → Meter) : Action Unit := modify fun b => { b with meter := f b.meter }

def logNotice (n : Notice) : Action Unit := log .warning "sqlite" n.origin n.message n.fields

/-- Reads the store and logs the notices that this gives. -/
def readStore (f : Store → Reading α) : Action α := do
  let r := f (← get).store
  r.notices.forM logNotice
  ofExcept r.outcome

def writeStore (f : Store → Except Fault Store) : Action Unit := do
  let s ← ofExcept (f (← get).store)
  modify fun b => { b with store := s }

def readFiles (f : Tree → Except Fault α) : Action α := do ofExcept (f (← get).files)

def writeFiles (f : Tree → Except Fault Tree) : Action Unit := do
  let t ← ofExcept (f (← get).files)
  modify fun b => { b with files := t }

def refuseIf (refused : Refusals → Bool) (f : StoreFault) : Action Unit := do
  if refused (← get).refusals then throw (.store f)

def document (id : String) : Action Document := do
  refuseIf (fun r => r.reading id) (.unreadable id)
  readStore (Store.document id)

def replaceChunks (id : String) (cs : List Chunk) : Action Unit := do
  refuseIf (fun r => r.replacing id) .diskFull
  writeStore (Store.replace (← now) id cs)

def chunksOf (id : String) : Action (List Chunk) := do
  refuseIf (fun r => r.listing id) .locked
  readStore (Store.chunksOf id)

def putDocument (d : Document) : Action Unit := do writeStore (Store.put (← now) d)

/-- Does work in a probe: its end is logged with the time it took, whether it went well or not. -/
def probed (operation : String) (labels : List (String × Json)) (work : Action α) : Action α := do
  let start := (← get).clock
  let outcome ← attempt work
  let milliseconds := ((← get).clock - start).toFloat / 1000.0
  let failure := match outcome with
    | .ok _ => none
    | .error e => some e.kind.name
  logRecord .info (Probe.recordOf operation milliseconds labels failure)
  ofExcept outcome

def ask (text : String) : Action Outcome := do
  let b ← get
  set { b with asked := b.asked ++ [text] }
  return b.provider b.asked text

end Action

end Compendium
