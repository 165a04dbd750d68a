import Compendium.Number.Numeral
import Compendium.Text.Quoted
import Compendium.Text.Utf8

/-! Why an operation fails, and the words for it. -/
namespace Compendium

open Number (Numeral)

/-- The families that failures belong to. -/
inductive Kind where
  | general
  | knowledgeBase
  | emptyQuery
  | documentNotFound
  | embedding
  | store
  | value
  | lookup
  | key
  | type
  | overflow
  | timeout
  | cancelled
  | system
  | fileNotFound
  | fileExists
  | isDirectory
  | notDirectory
  | undecodable
  | unencodable
  | runtime
  | attribute
  | integrity
  | settings
  | named (name : String)
  deriving DecidableEq, Repr

namespace Kind

/-- The name that log lines and answers show. -/
def name : Kind → String
  | .general => "Exception"
  | .knowledgeBase => "KnowledgeBaseError"
  | .emptyQuery => "EmptyQueryError"
  | .documentNotFound => "DocumentNotFoundError"
  | .embedding => "EmbeddingError"
  | .store => "StoreError"
  | .value => "ValueError"
  | .lookup => "LookupError"
  | .key => "KeyError"
  | .type => "TypeError"
  | .overflow => "OverflowError"
  | .timeout => "TimeoutError"
  | .cancelled => "CancelledError"
  | .system => "OSError"
  | .fileNotFound => "FileNotFoundError"
  | .fileExists => "FileExistsError"
  | .isDirectory => "IsADirectoryError"
  | .notDirectory => "NotADirectoryError"
  | .undecodable => "UnicodeDecodeError"
  | .unencodable => "UnicodeEncodeError"
  | .runtime => "RuntimeError"
  | .attribute => "AttributeError"
  | .integrity => "IntegrityError"
  | .settings => "SettingsError"
  | .named n => n

def all : List Kind :=
  [.general, .knowledgeBase, .emptyQuery, .documentNotFound, .embedding, .store, .value, .lookup, .key, .type,
    .overflow, .timeout, .cancelled, .system, .fileNotFound, .fileExists, .isDirectory, .notDirectory, .undecodable,
    .unencodable, .runtime, .attribute, .integrity, .settings]

def ofName (s : String) : Kind := (all.find? fun k => k.name = s).getD (.named s)

/-- A kind with the families above it, nearest first. The errors of the knowledge base belong to two
families: their own, and the general one that fits them. -/
def lineage : Kind → List Kind
  | .general => [.general]
  | .knowledgeBase => [.knowledgeBase, .general]
  | .emptyQuery => [.emptyQuery, .knowledgeBase, .value, .general]
  | .documentNotFound => [.documentNotFound, .knowledgeBase, .lookup, .general]
  | .embedding => [.embedding, .knowledgeBase, .runtime, .general]
  | .store => [.store, .knowledgeBase, .runtime, .general]
  | .key => [.key, .lookup, .general]
  | .timeout => [.timeout, .system, .general]
  | .fileNotFound => [.fileNotFound, .system, .general]
  | .fileExists => [.fileExists, .system, .general]
  | .isDirectory => [.isDirectory, .system, .general]
  | .notDirectory => [.notDirectory, .system, .general]
  | .undecodable => [.undecodable, .value, .general]
  | .unencodable => [.unencodable, .value, .general]
  | .settings => [.settings, .value, .general]
  | .cancelled => [.cancelled]
  | k => [k, .general]

end Kind

/-- Why a text could not be embedded. -/
inductive EmbeddingFault where
  | blankText
  | timedOut (limit : Option Numeral)
  | rejected (text : String)
  | refused (status : Int) (body : String)
  | unreachable (detail : String)
  | notAttempted
  | notJson (body : String)
  | malformed
  | notNumeric
  | notFlat
  | notFinite

/-- The characters of a provider's answer that a message repeats. -/
def repeatedBody (body : String) : String := String.ofList (body.toList.take 200)

def EmbeddingFault.message : EmbeddingFault → String
  | .blankText => "cannot embed empty text"
  | .timedOut limit => "query embedding timed out after " ++ ((limit.map Numeral.text).getD "None") ++ "s"
  | .rejected text => "provider rejected input: " ++ String.ofList (text.toList.take 30)
  | .refused status body => "embedding API returned " ++ toString status ++ ": " ++ repeatedBody body
  | .unreachable detail => "embedding request failed: " ++ detail
  | .notAttempted => "embedding request was not attempted"
  | .notJson body => "embedding API returned a non-JSON body: " ++ repeatedBody body
  | .malformed => "malformed embedding response"
  | .notNumeric => "embedding response contained non-numeric values"
  | .notFlat => "embedding response was not a flat non-empty vector"
  | .notFinite => "embedding response contained non-finite values"

inductive DatabaseFault where
  | closed
  | duplicate (table column : String)
  | missing (table column : String)
  | cannotOpen
  | notDatabase

def DatabaseFault.message : DatabaseFault → String
  | .closed => "Cannot operate on a closed database."
  | .duplicate table column => "UNIQUE constraint failed: " ++ table ++ "." ++ column
  | .missing table column => "NOT NULL constraint failed: " ++ table ++ "." ++ column
  | .cannotOpen => "unable to open database file"
  | .notDatabase => "file is not a database"

/-- Why the store refused a call. -/
inductive StoreFault where
  | noVector
  | opening (path : String) (cause : DatabaseFault)
  | query (cause : DatabaseFault)
  | write (cause : DatabaseFault)
  | replacing (document : String) (cause : DatabaseFault)
  | diskFull
  | unreadable (document : String)
  | locked

def StoreFault.message : StoreFault → String
  | .noVector => "chunk has no embedding"
  | .opening path cause => "failed to open knowledge store " ++ path ++ ": " ++ cause.message
  | .query cause => "knowledge store query failed: " ++ cause.message
  | .write cause => "knowledge store write failed: " ++ cause.message
  | .replacing document cause => "failed to replace chunks for " ++ document ++ ": " ++ cause.message
  | .diskFull => "disk full"
  | .unreadable document => "cannot read " ++ document
  | .locked => "locked"

inductive FileDefect where
  | notFound
  | exists_
  | notDirectory
  | isDirectory
  | invalid
  | nameTooLong
  | notEmpty
  deriving DecidableEq, Repr

def FileDefect.number : FileDefect → Nat
  | .notFound => 2
  | .exists_ => 17
  | .notDirectory => 20
  | .isDirectory => 21
  | .invalid => 22
  | .nameTooLong => 36
  | .notEmpty => 39

def FileDefect.message : FileDefect → String
  | .notFound => "No such file or directory"
  | .exists_ => "File exists"
  | .notDirectory => "Not a directory"
  | .isDirectory => "Is a directory"
  | .invalid => "Invalid argument"
  | .nameTooLong => "File name too long"
  | .notEmpty => "Directory not empty"

def FileDefect.kind : FileDefect → Kind
  | .notFound => .fileNotFound
  | .exists_ => .fileExists
  | .notDirectory => .notDirectory
  | .isDirectory => .isDirectory
  | _ => .system

inductive VectorFault where
  | notNumeric (text : String)
  | notScalar (what : String)
  | ragged (shape : List Nat)
  | tooLarge

def VectorFault.kind : VectorFault → Kind
  | .notScalar _ => .type
  | .tooLarge => .overflow
  | _ => .value

/-- A shape as a tuple: a single length is followed by a comma. -/
def shapeText (shape : List Nat) : String :=
  match shape with
  | [n] => "(" ++ toString n ++ ",)"
  | ns => "(" ++ ", ".intercalate (ns.map toString) ++ ")"

def VectorFault.message : VectorFault → String
  | .notNumeric text => "could not convert string to float: " ++ Text.quoted text
  | .notScalar what => "float() argument must be a string or a real number, not '" ++ what ++ "'"
  | .ragged shape =>
    "setting an array element with a sequence. The requested array has an inhomogeneous shape after " ++
      toString shape.length ++ " dimensions. The detected shape was " ++ shapeText shape ++ " + inhomogeneous part."
  | .tooLarge => "int too large to convert to float"

/-- Why an operation fails. -/
inductive Fault where
  | emptyQuery
  | unknownDocument (id : String)
  | embedding (cause : EmbeddingFault)
  | store (cause : StoreFault)
  | unknownLog (id : String)
  | emptyName (field : String)
  | separatorInName (field name : String)
  | itemExists (category title : String)
  | sizeNotPositive
  | overlapOutOfRange
  | lanesNotPositive
  | raggedBlob
  | numberTooLarge
  | undecodableVector (length : Nat)
  | vector (cause : VectorFault)
  | timeout
  | cancelled
  | mixedTimes
  | notIterable (what : String)
  | unknownCommand (name : Option String)
  | file (defect : FileDefect) (paths : List String)
  | nulInPath
  | notText (cause : Text.Utf8.Fault)
  | notAscii (first : Nat) (run : List Char)
  | database (cause : DatabaseFault)
  | unknownLevel (name : String)
  | unreadableSetting (section_ : String)
  | raised (kind : Kind) (message : String)

namespace Fault

def kind : Fault → Kind
  | .emptyQuery => .emptyQuery
  | .unknownDocument _ => .documentNotFound
  | .embedding _ => .embedding
  | .store _ => .store
  | .unknownLog _ => .lookup
  | .numberTooLarge => .overflow
  | .vector cause => cause.kind
  | .timeout => .timeout
  | .cancelled => .cancelled
  | .mixedTimes => .type
  | .notIterable _ => .type
  | .file defect _ => defect.kind
  | .notText _ => .undecodable
  | .notAscii _ _ => .unencodable
  | .database _ => .integrity
  | .unknownLevel _ => .attribute
  | .unreadableSetting _ => .settings
  | .raised kind _ => kind
  | _ => .value

def isA (f : Fault) (k : Kind) : Bool := f.kind.lineage.contains k

def message : Fault → String
  | .emptyQuery => "query must not be empty"
  | .unknownDocument id => "knowledge item not found: " ++ id
  | .embedding cause => cause.message
  | .store cause => cause.message
  | .unknownLog id => "retrieval log not found: " ++ id
  | .emptyName field => field ++ " must not be empty"
  | .separatorInName field name => field ++ " must not contain path separators: " ++ Text.quoted name
  | .itemExists category title => "knowledge item already exists: " ++ category ++ "/" ++ title
  | .sizeNotPositive => "chunk_size must be positive"
  | .overlapOutOfRange => "overlap must be in [0, chunk_size)"
  | .lanesNotPositive => "max_concurrent must be positive"
  | .raggedBlob => "buffer size must be a multiple of element size"
  | .numberTooLarge => "Python int too large to convert to SQLite INTEGER"
  | .undecodableVector length => "cannot decode embedding of " ++ toString length ++ " characters"
  | .vector cause => cause.message
  | .timeout => ""
  | .cancelled => ""
  | .mixedTimes => "can't compare offset-naive and offset-aware datetimes"
  | .notIterable what => "'" ++ what ++ "' object is not iterable"
  | .unknownCommand name => "unknown command: " ++ name.getD "None"
  | .file defect paths =>
    "[Errno " ++ toString defect.number ++ "] " ++ defect.message ++ ": " ++
      " -> ".intercalate (paths.map Text.quoted)
  | .nulInPath => "embedded null byte"
  | .notText cause => cause.message
  | .notAscii first run =>
    "'ascii' codec can't encode " ++
      (match run with
        | [c] => "character '" ++ String.ofList (Text.numberEscape c) ++ "' in position " ++ toString first
        | _ => "characters in position " ++ toString first ++ "-" ++ toString (first + run.length - 1)) ++
      ": ordinal not in range(128)"
  | .database cause => cause.message
  | .unknownLevel name => "module 'logging' has no attribute " ++ Text.quoted name
  | .unreadableSetting section_ =>
    "error parsing value for field \"" ++ section_ ++ "\" from source \"EnvSettingsSource\""
  | .raised .key message => Text.quoted message
  | .raised _ message => message

/-- Work that is given another number of words than it takes. -/
def wordCount (k : Kind) (rest : String) : Fault := .raised .type (k.name ++ ".__init__() " ++ rest)

/-- A failure of a family made from words. One word is its message; of several words all are shown. -/
def ofWords (k : Kind) (words : List String) : Except Fault Fault :=
  match k, words with
  | .emptyQuery, [] => .ok .emptyQuery
  | .emptyQuery, _ :: _ :: _ =>
    .error (wordCount k ("takes from 1 to 2 positional arguments but " ++ toString (words.length + 1) ++ " were given"))
  | .documentNotFound, [id] => .ok (.unknownDocument id)
  | .documentNotFound, [] => .error (wordCount k "missing 1 required positional argument: 'document_id'")
  | .documentNotFound, _ =>
    .error (wordCount k ("takes 2 positional arguments but " ++ toString (words.length + 1) ++ " were given"))
  | k, [] => .ok (.raised k "")
  | k, [w] => .ok (.raised k w)
  | k, ws => .ok (.raised k ("(" ++ ", ".intercalate (ws.map Text.quoted) ++ ")"))

/-- Families whose names stand with the place that they come from. -/
def ownKinds : List Kind := [.knowledgeBase, .emptyQuery, .documentNotFound, .embedding, .store]

def line (f : Fault) : String :=
  (if ownKinds.contains f.kind then "vulnkb.errors." else "") ++ f.kind.name ++
    (if f.message.isEmpty then "" else ": " ++ f.message)

end Fault

theorem ok_bind {ε α β : Type} (a : α) (f : α → Except ε β) : (Except.ok a >>= f) = f a := rfl

theorem error_bind {ε α β : Type} (e : ε) (f : α → Except ε β) : (Except.error e >>= f) = .error e := rfl

/-- Two steps in a row succeed if the first one does, and the second one with its result. -/
theorem bind_eq_ok {ε α β : Type} {x : Except ε α} {f : α → Except ε β} {b : β} :
    (x >>= f) = .ok b ↔ ∃ a, x = .ok a ∧ f a = .ok b := by
  cases x <;> simp [bind, Except.bind]

end Compendium
