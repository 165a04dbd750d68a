import Compendium.Command.Arguments
import Compendium.Settings.Environment
import Compendium.Wiring

/-! Carrying out commands. -/
namespace Compendium.Command

open Compendium.Number

def Order.name : Order → String
  | .scan => "scan"
  | .rebuild => "rebuild"
  | .bootstrap => "bootstrap"
  | .status => "status"
  | .categories => "categories"
  | .search _ => "search"

/-- How a run ended: its exit code, and the last line of what was said about misuse. -/
structure Ending where
  code : Int
  complaint : String := ""

/-- The code of a run in which as many documents failed. -/
def codeOf (failed : Int) : Int := if failed = 0 then 0 else 1

def coverageLine (c : Catalog.Coverage) : String :=
  "Items: " ++ toString c.total ++ "  Indexed: " ++ toString c.indexed ++ "  Progress: " ++ fixed 1 c.percent ++
    "%  Complete: " ++ (if c.isComplete then "yes" else "no")

def rebuildLine (p : Progress) : String :=
  "✓ Rebuilt index: " ++ toString (p.processed - p.failed) ++ "/" ++ toString p.total ++ " documents, " ++
    toString p.chunks ++ " chunks"

def bootstrapLine (p : Progress) : String :=
  "✓ Indexed " ++ toString p.processed ++ " documents (" ++ toString p.failed ++ " failed, " ++ toString p.chunks ++
    " chunks)"

def Query.request (q : Query) : Request := ⟨q.text, q.riskType, q.topK, q.threshold.map .decimal⟩

def perform (w : Wiring) : Order → Action Int
  | .scan => do
    let changed ← Catalog.scan w.base
    Action.print ("✓ Scanned knowledge base: " ++ toString changed.length ++ " new or changed items")
    return 0
  | .status => do
    Action.print (coverageLine (← Catalog.coverage))
    return 0
  | .categories => do
    Action.print (Report.riskTypes (← Action.readStore Store.categories))
    return 0
  | .rebuild => do
    let _ ← Catalog.scan w.base
    let (p, _) ← (← Action.ofExcept w.indexer).rebuild
    Action.print (rebuildLine p)
    p.errors.forM fun e => Action.print ("  ✗ " ++ e)
    return codeOf p.failed
  | .bootstrap => do
    let p ← (← Action.ofExcept w.service).bootstrap
    Action.print (bootstrapLine p)
    return codeOf p.failed
  | .search q => do
    let ms ← (← Action.ofExcept w.service).search q.request
    Action.print (if q.summary then Report.summary ms else Report.results Report.percentText q.text ms)
    return 0

/-- Carries out an order; failures of the knowledge base and refused values are told and end with code 1. -/
def run (w : Wiring) (order : Order) (prepare : Action Unit := pure ()) : Action Int := do
  match ← Action.attempt (do prepare; perform w order) with
  | .ok code => return code
  | .error e =>
    if e.isA .knowledgeBase then
      Action.log .error "main" "main" "Command failed"
        [("command", .text order.name), ("error", .text e.message)]
    else if !e.isA .value then throw e
    Action.print ("✗ " ++ e.message)
    return 1

def lastLine (s : String) : String := String.ofList (s.toList.reverse.takeWhile (· != '\n')).reverse

def refuse : Refusal → Action Ending
  | .help command => do
    Action.note (.printed ((command.map helpOn).getD help))
    return ⟨0, ""⟩
  | .misuse command m => do
    let program := " ".intercalate (programName :: command.toList)
    return ⟨2, lastLine (program ++ ": error: " ++ m.message)⟩

/-- Reads arguments and does the work for the order that they give; without an order there is help. -/
def withOrder (arguments : List String) (work : Order → Action Ending) : Action Ending :=
  match read arguments with
  | .error r => refuse r
  | .ok none => do
    Action.note (.printed help)
    return ⟨1, ""⟩
  | .ok (some order) => work order

def runWith (w : Wiring) (arguments : List String) : Action Ending :=
  withOrder arguments fun order => do return ⟨← run w order, ""⟩

/-- Carries out the order with the store that the settings ask for, which is opened first and closed at the end. -/
def runFresh (s : Settings) (order : Order) : Action Ending := do
  let outcome ← Action.attempt (run (Wiring.ofSettings s) order (Action.openStore s.storage))
  Action.closeStore
  return ⟨← Action.ofExcept outcome, ""⟩

end Compendium.Command
