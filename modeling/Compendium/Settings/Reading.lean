import Compendium.Json.Basic
import Compendium.Number.Numeral
import Compendium.Settings.Basic
import Compendium.Settings.Defect
import Compendium.Text.Blank

/-! Reading settings from values: numbers may be written as texts, and bounds are checked. -/
namespace Compendium.Settings

open Compendium.Text (trim)

/-- Whether low lines stand only between other characters, one at a time. -/
def partsWell (s : List Char) : Bool :=
  s.head? != some '_' && s.getLast? != some '_' && (s.zip s.tail).all fun p => p.1 != '_' || p.2 != '_'

def withoutLowLines (s : List Char) : List Char := s.filter (· != '_')

/-- The digits of a text, of which a low line may stand between two. -/
def digitsOnly? (s : List Char) : Option (List Char) :=
  let digits := withoutLowLines s
  if digits.isEmpty || !partsWell s || !digits.all Char.isDigit then none else some digits

/-- The text before a point behind which there are only zeros. -/
def dropZeroDecimals (s : List Char) : List Char :=
  let whole := s.takeWhile (· != '.')
  if (s.drop whole.length).tail.all (· = '0') then whole else s

/-- A whole number written with blanks around it, a sign, low lines or zero decimals. -/
def wholeOfText? (s : List Char) : Option Int :=
  let (negative, body) := Number.splitSign (trim s)
  (digitsOnly? (dropZeroDecimals body)).map fun digits =>
    let n : Int := digits.foldl (fun n c => n * 10 + (c.toNat - 48)) 0
    if negative then -n else n

def wholeOfFloat (x : Float) : Except Defect Int :=
  match Number.Binary.ofFloat x with
  | .finite negative m e =>
    let (num, den) := Number.quotientOf m e
    if num % den != 0 then .error .notWhole
    else .ok (if negative then -((num / den : Nat) : Int) else (num / den : Nat))
  | _ => .error .infinite

def whole : Json → Except Defect Int
  | .number (.whole n) => .ok n
  | .number (.decimal x) => wholeOfFloat x
  | .bool b => .ok (if b then 1 else 0)
  | .text s =>
    match wholeOfText? s.toList with
    | some n => .ok n
    | none => .error .wholeText
  | _ => .error .wholeKind

/-- A number written in ASCII, blanks around it and low lines allowed. -/
def numberOfText? (s : List Char) : Option Float :=
  if partsWell s && (trim s).all (fun c => c.toNat < 128) then Number.readFloat? (withoutLowLines s) else none

def number : Json → Except Defect Float
  | .number n => .ok n.toFloat
  | .bool b => .ok (if b then 1.0 else 0.0)
  | .text s =>
    match numberOfText? s.toList with
    | some x => .ok x
    | none => .error .numberText
  | _ => .error .numberKind

def truthWords : List (String × Bool) :=
  [("0", false), ("off", false), ("f", false), ("false", false), ("n", false), ("no", false),
    ("1", true), ("on", true), ("t", true), ("true", true), ("y", true), ("yes", true)]

def truthOfWhole (n : Int) : Except Defect Bool :=
  if n = 0 then .ok false else if n = 1 then .ok true else .error .truthText

def truth : Json → Except Defect Bool
  | .bool b => .ok b
  | .number (.whole n) => truthOfWhole n
  | .number (.decimal x) =>
    match wholeOfFloat x with
    | .ok n => truthOfWhole n
    | .error _ => .error .truthKind
  | .text s =>
    match truthWords.find? fun w => w.1 = String.ofList (s.toList.map Char.toLower) with
    | some w => .ok w.2
    | none => .error .truthText
  | _ => .error .truthKind

def text : Json → Except Defect String
  | .text s => .ok s
  | _ => .error .textKind

def path : Json → Except Defect Path
  | .text s => .ok (Path.ofText s)
  | _ => .error .pathKind

def optional {α : Type} (read : Json → Except Defect α) : Json → Except Defect (Option α)
  | .null => .ok none
  | v => (read v).map some

def checked {α : Type} (read : Json → Except Defect α) (test : α → Bool) (d : Defect) (v : Json) :
    Except Defect α := do
  let a ← read v
  if test a then return a else throw d

def positive : Json → Except Defect Int := checked whole (fun n => decide (0 < n)) .notAbove

/-- A number that is not zero or less; the undefined number passes. -/
def positiveNumber : Json → Except Defect Float := checked number (fun x => !decide (x ≤ 0.0)) .notAbove

/-- A number above zero and not above one; the undefined number passes. -/
def share : Json → Except Defect Float := checked positiveNumber (fun x => !decide (1.0 < x)) .above

def field {α : Type} (fields : List (String × Json)) (name : String) (read : Json → Except Defect α)
    (preset : α) : Checked α :=
  match fields.find? fun f => f.1 = name with
  | none => .fine preset
  | some f => .ofField name (read f.2)

def address (v : Json) : Except Defect String := do
  let s ← text v
  if "http://".toList.isPrefixOf s.toList || "https://".toList.isPrefixOf s.toList then
    return String.ofList (s.toList.reverse.dropWhile (· = '/')).reverse
  else throw .refused

def readEmbedding (fields : List (String × Json)) : Checked EmbeddingSettings :=
  let preset : EmbeddingSettings := {}
  EmbeddingSettings.mk <$> field fields "base_url" address preset.url
    <*> field fields "model" text preset.model
    <*> field fields "api_key" (optional text) preset.key
    <*> field fields "timeout" positiveNumber preset.timeout
    <*> field fields "max_retries" (checked whole (fun n => decide (1 ≤ n)) .below) preset.attempts

/-- An overlap that is given has to be smaller than the chunk size, unless the size itself is wrong. -/
def overlapBelow (size : Option Int) (v : Json) : Except Defect Int :=
  checked (checked whole (fun n => decide (0 ≤ n)) .below) (fun n => size.all fun s => decide (n < s)) .refused v

def readChunking (fields : List (String × Json)) : Checked ChunkingSettings :=
  let preset : ChunkingSettings := {}
  let size := field fields "chunk_size" positive preset.size
  ChunkingSettings.mk <$> size <*> field fields "chunk_overlap" (overlapBelow size.value?) preset.overlap

def readRetrieval (fields : List (String × Json)) : Checked RetrievalSettings :=
  RetrievalSettings.mk <$> field fields "top_k" (optional positive) none
    <*> field fields "similarity_threshold" (optional share) none
    <*> field fields "hybrid_weight" (optional share) none
    <*> field fields "expand_context" truth true

def readIndexing (fields : List (String × Json)) : Checked IndexingSettings :=
  let preset : IndexingSettings := {}
  IndexingSettings.mk <$> field fields "max_concurrent" positive preset.lanes
    <*> field fields "embed_timeout" (optional positiveNumber) none
    <*> field fields "max_consecutive_failures" positive preset.mostFailures

def backend (v : Json) : Except Defect Backend := do
  match Backend.ofName? (← text v) with
  | some b => return b
  | none => throw .refused

def readStorage (fields : List (String × Json)) : Checked StorageSettings :=
  let preset : StorageSettings := {}
  StorageSettings.mk <$> field fields "backend" backend preset.backend
    <*> field fields "database_path" path preset.database
    <*> field fields "base_path" path preset.base

def level (v : Json) : Except Defect Level := do
  match Level.ofName? (String.ofList (Text.upper (← text v).toList)) with
  | some l => return l
  | none => throw .refused

def readReporting (fields : List (String × Json)) : Checked ReportingSettings :=
  let preset : ReportingSettings := {}
  ReportingSettings.mk <$> field fields "log_level" level preset.level
    <*> field fields "service_name" text preset.service

/-- Reads a section, which is preset when it is missing and has to consist of fields. -/
def readSection {α : Type} (sections : List (String × Json)) (name : String)
    (read : List (String × Json) → Checked α) (preset : α) : Checked α :=
  match sections.find? fun s => s.1 = name with
  | none => .fine preset
  | some (_, .object fields) => (read fields).within name
  | some _ => .wrong [⟨[name], .sectionKind⟩]

def readAll (sections : List (String × Json)) : Checked Settings :=
  Settings.mk <$> readSection sections "embedding" readEmbedding {}
    <*> readSection sections "chunking" readChunking {}
    <*> readSection sections "retrieval" readRetrieval {}
    <*> readSection sections "indexing" readIndexing {}
    <*> readSection sections "storage" readStorage {}
    <*> readSection sections "observability" readReporting {}

end Compendium.Settings
