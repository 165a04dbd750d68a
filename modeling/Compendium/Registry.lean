import Compendium.Base

/-! A registry of parts that are built when they are first asked for, entered when they are used, and closed
together. -/
namespace Compendium

/-- What a part is like: the tag that its events bear, what it can do, and at which events it breaks. -/
structure Blueprint where
  tag : String
  /-- It can be closed. -/
  closes : Bool
  /-- It can be shut down, which goes before closing; the name of the event. -/
  shutdown : Option String
  /-- It is entered before it is used, and left at the end. -/
  enters : Bool
  breaksAt : List String
  /-- A part that has to be there first. -/
  needs : Option String

/-- A part, with the number of parts that were built before it. -/
structure Part where
  blueprint : Blueprint
  serial : Nat

/-- The event of bringing a part to its end: shutting it down, or else closing it, if it can do either. -/
def Part.ending? (p : Part) : Option String :=
  match p.blueprint.shutdown with
  | some event => some event
  | none => if p.blueprint.closes then some "close" else none

/-- What a name stands for: a plain value or a part. -/
inductive Item where
  | value (v : Json)
  | part (p : Part)

structure Happening where
  tag : String
  event : String
  /-- The name that the registry has for the part; none where it is built for itself. -/
  name : Option String
  part : Part
  /-- What the part broke with, if it broke. -/
  failure : Option Fault

/-- How a factory makes a part: it asks the registry for what it needs and goes by the answers, until it makes the
part or fails. -/
inductive Recipe where
  | make (b : Blueprint)
  | fail (e : Fault)
  | ask (name : String) (preset : Item) (next : Except Fault Item → Recipe)

/-- A factory. What it does may hang on all that has happened before. -/
abbrev Factory := List Happening → Recipe

def Blueprint.factory (b : Blueprint) : Factory := fun _ =>
  match b.needs with
  | none => .make b
  | some other => .ask other (.value .null) fun answer =>
    match answer with
    | .ok _ => .make b
    | .error e => .fail e

def breaking (_ : List Happening) (p : Part) (event : String) : Option Fault :=
  if p.blueprint.breaksAt.contains event then some (.raised .runtime (p.blueprint.tag ++ " boom")) else none

/-- The registry: how parts are built, what is given once and for all, the parts built and the parts entered,
in order; and what has happened. -/
structure Registry where
  factories : List (String × Factory) := []
  fixed : List (String × Item) := []
  built : List (String × Part) := []
  entered : List (String × Part) := []
  count : Nat := 0
  events : List Happening := []
  complaints : List Record := []
  /-- What a part breaks with at an event, if it does, when some things have happened before. -/
  breaks : List Happening → Part → String → Option Fault := breaking

namespace Registry

abbrev Job := ExceptT Fault (StateM Registry)

variable {α : Type}

def attempt (work : Job α) : Job (Except Fault α) := ExceptT.mk (do return .ok (← work.run))

def ofExcept : Except Fault α → Job α
  | .ok a => pure a
  | .error e => throw e

/-- Something happens to a part, which may break it. -/
def happen (name : Option String) (p : Part) (event : String) : Job Unit := do
  let r ← get
  let h : Happening := ⟨p.blueprint.tag, event, name, p, r.breaks r.events p event⟩
  set { r with events := r.events ++ [h] }
  match h.failure with
  | none => return
  | some e => throw e

def build (b : Blueprint) (name : Option String := none) : Job Part := do
  let p : Part := ⟨b, (← get).count⟩
  happen name p "built"
  modify fun r => { r with count := r.count + 1 }
  return p

def registerFactory (name : String) (f : Factory) : Job Unit :=
  modify fun r => { r with factories := Keyed.put name f r.factories }

def register (name : String) (b : Blueprint) : Job Unit := registerFactory name b.factory

def fix (name : String) (item : Item) : Job Unit := modify fun r => { r with fixed := Keyed.put name item r.fixed }

/-- Follows the recipe of a part that is built for a name; `find?` answers what it asks for. -/
def follow (find? : String → Job (Option Item)) (name : String) : Recipe → Job Part
  | .make b => build b (some name)
  | .fail e => throw e
  | .ask other preset next => do
    let answer ← attempt (find? other)
    follow find? name (next (answer.map fun found => found.getD preset))

/-- A factory asked, itself or through others, for the name that it was run for: this has no end. -/
def endless : Fault := .raised (.named "RecursionError") "maximum recursion depth exceeded"

/-- What a name stands for; a part is built unless it is there. The factories at work are those of `busy`; there are
never more of them than there are factories, which is what `depth` counts. -/
def find? : (depth : Nat) → (busy : List String) → (name : String) → Job (Option Item)
  | 0, _, _ => throw endless
  | depth + 1, busy, name => do
    let r ← get
    match Keyed.get? name r.fixed, Keyed.get? name r.built, Keyed.get? name r.factories with
    | some item, _, _ => return some item
    | none, some p, _ => return some (.part p)
    | none, none, none => return none
    | none, none, some f =>
      if busy.contains name then throw endless
      let p ← follow (find? depth (name :: busy)) name (f r.events)
      modify fun r => { r with built := Keyed.put name p r.built }
      return some (.part p)

def getOr (name : String) (preset : Item) : Job Item := do
  return (← find? ((← get).factories.length + 1) [] name).getD preset

/-- The same, but a part is entered unless it was entered before. -/
def enterOr (name : String) (preset : Item) : Job Item := do
  match Keyed.get? name (← get).entered with
  | some p => return .part p
  | none =>
    match ← getOr name preset with
    | .value v => return .value v
    | .part p =>
      if p.blueprint.enters then
        happen (some name) p "enter"
        modify fun r => { r with entered := Keyed.put name p r.entered }
      return .part p

def getItem (name : String) (preset : Json) : Job Item := getOr name (.value preset)

def enterItem (name : String) (preset : Json) : Job Item := enterOr name (.value preset)

def complaint (message label name : String) (e : Fault) : Record :=
  Record.ofCall .error "container" "cleanup" message [(label, .text name), ("error", .text e.message)]

/-- Does something to parts in order. One that breaks is logged and does not keep the others from their turn, unless
the work as a whole is to be given up. -/
def eachPart (message label : String) (work : String → Part → Job Unit) : List (String × Part) → Job Unit
  | [] => return
  | (name, p) :: rest => do
    match ← attempt (work name p) with
    | .ok _ => pure ()
    | .error e =>
      if !e.isA .general then throw e
      modify fun r => { r with complaints := r.complaints ++ [complaint message label name e] }
    eachPart message label work rest

def leave (name : String) (p : Part) : Job Unit := happen (some name) p "exit3"

/-- Shuts a part down, or else closes it, if it can. -/
def close (name : String) (p : Part) : Job Unit :=
  match p.ending? with
  | some event => happen (some name) p event
  | none => return

/-- Leaves the parts that were entered, then closes the parts that were built, and forgets both. -/
def cleanup : Job Unit := do
  eachPart "Error cleaning up resource" "resource" leave (← get).entered
  modify fun r => { r with entered := [] }
  eachPart "Error closing service" "service" close (← get).built
  modify fun r => { r with built := [] }

def lifespan (work : Job α) : Job α := do
  let outcome ← attempt work
  cleanup
  ofExcept outcome

end Registry

end Compendium
