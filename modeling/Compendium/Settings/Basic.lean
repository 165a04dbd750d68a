import Compendium.Files.Path
import Compendium.Level

/-! The settings of the program, section by section, with their presets. -/
namespace Compendium

structure EmbeddingSettings where
  url : String := "https://api.openai.com/v1"
  model : String := "text-embedding-3-small"
  key : Option String := none
  /-- Seconds that a request may take. -/
  timeout : Float := 30.0
  /-- The most times that a request is sent. -/
  attempts : Int := 3

structure ChunkingSettings where
  size : Int := 512
  overlap : Int := 50

structure RetrievalSettings where
  topK : Option Int := none
  threshold : Option Float := none
  hybridWeight : Option Float := none
  expands : Bool := true

structure IndexingSettings where
  lanes : Int := 1
  embedLimit : Option Float := none
  mostFailures : Int := 2

inductive Backend where
  | memory
  | database
  deriving DecidableEq, Repr

def Backend.name : Backend → String
  | .memory => "memory"
  | .database => "sqlite"

def Backend.ofName? (s : String) : Option Backend := [Backend.database, .memory].find? fun b => b.name = s

structure StorageSettings where
  backend : Backend := .database
  database : Path := ⟨0, ["data", "knowledge.db"]⟩
  base : Path := ⟨0, ["knowledge_base"]⟩

structure ReportingSettings where
  level : Level := .info
  service : String := "vulnkb"

structure Settings where
  embedding : EmbeddingSettings := {}
  chunking : ChunkingSettings := {}
  retrieval : RetrievalSettings := {}
  indexing : IndexingSettings := {}
  storage : StorageSettings := {}
  reporting : ReportingSettings := {}

end Compendium
