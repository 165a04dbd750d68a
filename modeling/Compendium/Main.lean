import Compendium.Command.Run
import Compendium.Store.Saved
import Std.Time.DateTime.Timestamp

/-! The command line. The files of the knowledge base are named on standard input, one path on each line; the
database is kept in its saved form in the file that the settings name. -/
namespace Compendium.Command

open Compendium

def currentMicros : IO Nat := do
  return ((← Std.Time.Timestamp.now).toNanosecondsSinceUnixEpoch.val / 1000).toNat

def readVariables : IO (List (String × String)) := do
  let found ← Settings.variableNames.mapM fun name => do return (name, ← IO.getEnv name)
  return found.filterMap fun v => v.2.map fun value => (v.1, value)

/-- The lines of standard input that are not empty; `fuel` bounds their number. -/
def readLines (input : IO.FS.Stream) : (fuel : Nat) → IO (List String)
  | 0 => return []
  | fuel + 1 => do
    let line ← input.getLine
    if line.isEmpty then return []
    let path := Text.strip line
    let rest ← readLines input fuel
    return if path.isEmpty then rest else path :: rest

def mostFiles : Nat := 100000

def Order.scans : Order → Bool
  | .scan => true
  | .rebuild => true
  | .bootstrap => true
  | _ => false

def addFile (t : Tree) (path : String) : IO Tree := do
  let bytes ← IO.FS.readBinFile path
  let p := Path.ofText path
  let added := do
    let t ← t.makeDirectories p.parent
    Tree.onPath p (t.store p (.octets bytes.toList))
  return added.toOption.getD t

/-- What a file keeps of a base: how many ids were given out, and the rows. -/
def savedBase (issued : Nat) (tables : Tables) : Json := .object [("issued", .nat issued), ("tables", tables.saved)]

def readSaved (path : String) : IO (Option (Nat × Tables)) := do
  try
    let text ← IO.FS.readFile path
    return do
      let v ← Json.parse? text.toList
      return ((← (← v.field? "issued").int?).toNat, ← Tables.ofSaved? (← v.field? "tables"))
  catch _ => return none

def unreachable : Provider := fun _ _ => .fails (.embedding (.unreachable "no endpoint is connected"))

/-- The base before an order: the files that are there, and the rows saved before. -/
def gather (s : Settings) (order : Order) : IO Base := do
  let paths ← if order.scans then readLines (← IO.getStdin) mostFiles else pure []
  let files ← paths.foldlM addFile {}
  let base : Base := { clock := ← currentMicros, files := files, provider := unreachable }
  match s.storage.opens with
  | none => return base
  | some path =>
    match ← readSaved path with
    | none => return base
    | some (issued, tables) => return ((Action.restore path tables).run.run { base with issued := issued }).2

def keep (s : Settings) (b : Base) : IO Unit := do
  match s.storage.opens with
  | none => return
  | some path =>
    if path = unfiledPath then return
    IO.FS.createDirAll s.storage.database.parent.text
    IO.FS.writeFile path (Json.print Json.compact (savedBase b.issued (Action.tablesAt path b)))

/-- Prints what an order printed and what it logged at the level of the settings. -/
def report (s : Settings) (b : Base) : IO Unit :=
  IO.print (String.join (b.journal.map (Entry.shown s.reporting.level.number true)))

def fail (message : String) : IO UInt32 := do
  IO.eprintln message
  return 1

def tellEnding (outcome : Except Fault Ending × Base) : IO UInt32 := do
  IO.print (String.join (outcome.2.journal.map (Entry.shown 0 true)))
  match outcome.1 with
  | .error f => fail f.line
  | .ok e =>
    if !e.complaint.isEmpty then IO.eprintln e.complaint
    return e.code.toNat.toUInt32

def carryOut (s : Settings) (order : Order) : IO UInt32 := do
  let (outcome, base) := (runFresh s order).run.run (← gather s order)
  report s base
  keep s base
  match outcome with
  | .error f => fail f.line
  | .ok e => return e.code.toNat.toUInt32

def complaintLine (c : Settings.Complaint) : String := ".".intercalate c.place ++ ": " ++ c.defect.code

/-- Carries out the command that arguments give. -/
def start (arguments : List String) : IO UInt32 := do
  match read arguments with
  | .ok (some order) =>
    match Settings.ofEnvironment (← readVariables) with
    | .error f => fail f.line
    | .ok (.wrong cs) => fail ("\n".intercalate (cs.map complaintLine))
    | .ok (.fine s) => carryOut s order
  | _ => tellEnding ((withOrder arguments fun _ => pure ⟨0, ""⟩).run.run {})

end Compendium.Command

def main (arguments : List String) : IO UInt32 := Compendium.Command.start arguments
