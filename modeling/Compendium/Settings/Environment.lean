import Compendium.Fault
import Compendium.Json.Reader
import Compendium.Keyed
import Compendium.Settings.Reading

/-! Settings from environment variables: a section as a whole, or a single field behind a double low line. -/
namespace Compendium.Settings

/-- The beginning of the names of all variables that count, in lower case. -/
def mark : String := "vulnkb_"

def separator : List Char := ['_', '_']

def sectionNames : List String := ["embedding", "chunking", "retrieval", "indexing", "storage", "observability"]

def fieldNames : List (String × List String) :=
  [("embedding", ["base_url", "model", "api_key", "timeout", "max_retries"]),
    ("chunking", ["chunk_size", "chunk_overlap"]),
    ("retrieval", ["top_k", "similarity_threshold", "hybrid_weight", "expand_context"]),
    ("indexing", ["max_concurrent", "embed_timeout", "max_consecutive_failures"]),
    ("storage", ["backend", "database_path", "base_path"]), ("observability", ["log_level", "service_name"])]

def variableNames : List String :=
  fieldNames.flatMap fun s =>
    let fields := s.2.map fun f => s.1 ++ String.ofList separator ++ f
    (s.1 :: fields).map fun n => (mark ++ n).map Char.toUpper

def splitName : List Char → List (List Char)
  | [] => [[]]
  | '_' :: '_' :: r => [] :: splitName r
  | c :: r =>
    match splitName r with
    | [] => [[c]]
    | p :: ps => (c :: p) :: ps

/-- The variables with their names in lower case; of two of one name the later one counts. -/
def lowered (given : List (String × String)) : List (String × String) :=
  given.foldl (fun kept v => Keyed.put (String.ofList (Text.lower v.1.toList)) v.2 kept) []

/-- Puts a text at the end of a way of names. A text that stands in the way stays. -/
def putAt (value : String) : List String → List (String × Json) → List (String × Json)
  | [], fields => fields
  | [name], fields => Json.setField name (.text value) fields
  | name :: rest, fields =>
    match Keyed.get? name fields with
    | none => Json.setField name (.object (putAt value rest [])) fields
    | some (.object inner) => Json.setField name (.object (putAt value rest inner)) fields
    | some _ => fields

def wayIn? (section_ : String) (name : String) : Option (List String) :=
  let start := (mark ++ section_).toList ++ separator
  if start.isPrefixOf name.toList then some ((splitName (name.toList.drop start.length)).map String.ofList) else none

def singleFields (given : List (String × String)) (section_ : String) : List (String × Json) :=
  given.foldl (fun fields v =>
    match wayIn? section_ v.1 with
    | some way => putAt v.2 way fields
    | none => fields) []

mutual

/-- Two values of one name; objects are merged, else the new value counts. -/
def merge (old new : Json) : Json :=
  match old, new with
  | .object a, .object b => .object (mergeFields a b)
  | _, v => v

def mergeFields (old : List (String × Json)) : List (String × Json) → List (String × Json)
  | [] => old
  | (name, v) :: rest =>
    let value := match Keyed.get? name old with
      | some w => merge w v
      | none => v
    mergeFields (Json.setField name value old) rest

end

def lowerNames (fields : List (String × Json)) : List (String × Json) :=
  fields.foldl (fun kept f => Json.setField (String.ofList (Text.lower f.1.toList)) f.2 kept) []

def sectionValue (given : List (String × String)) (section_ : String) : Except Fault (Option Json) :=
  let single := singleFields given section_
  match Keyed.get? (mark ++ section_) given with
  | none => .ok (if single.isEmpty then none else some (.object single))
  | some s =>
    match Json.parse? s.toList with
    | none => .error (.unreadableSetting section_)
    | some .null => .ok none
    | some (.object fields) => .ok (some (.object (lowerNames (mergeFields fields single))))
    | some v => .ok (some v)

def sectionsOf (given : List (String × String)) : List String → Except Fault (List (String × Json))
  | [] => .ok []
  | name :: rest => do
    let value ← sectionValue given name
    let others ← sectionsOf given rest
    return (value.map fun v => (name, v)).toList ++ others

def ofEnvironment (given : List (String × String)) : Except Fault (Checked Settings) := do
  return readAll (← sectionsOf (lowered given) sectionNames)

end Compendium.Settings
