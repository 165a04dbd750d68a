import Compendium.Keyed
import Compendium.Logger
import Compendium.Number.Scalar

/-!
Probes: blocks of work that are timed, logged when they end, and kept for each trace. The log lets their records
through.
-/
namespace Compendium.Probe

open Compendium.Number

structure Finished (K : Type) where
  operation : String
  labels : List (String × Json)
  failure : Option String
  milliseconds : K
  /-- The clock when the block ended. -/
  stamp : K

/-- What a program does as far as probes go: it lets time pass, fails, catches what fails in some of its steps, or goes
through steps in a block that is timed. -/
inductive Step (K : Type) where
  | wait (time : K)
  | raise (failure : Fault)
  | guard (catches : Fault → Bool) (body : List (Step K))
  | block (operation : String) (trace : Option String) (labels : List (String × Json)) (body : List (Step K))

instance {K : Type} : Inhabited (Step K) := ⟨.guard (fun _ => true) []⟩

abbrev Block := Step

/-- A block of work: nested blocks in order, then some time, then perhaps a failure. A failure that is caught does not
end what is around the block. -/
def Block.mk {K : Type} (operation : String) (trace : Option String) (labels : List (String × Json))
    (body : List (Block K)) (elapsed : K) (raises : Option Fault) (caught : Bool) : Block K :=
  let block := Step.block operation trace labels (body ++ .wait elapsed :: (raises.map Step.raise).toList)
  if caught then .guard (fun _ => true) [block] else block

/-- The clock, the ended blocks in the order in which they ended, and for each trace the last end of each
operation. -/
structure State (K : Type) where
  clock : K
  ended : List (Finished K)
  timings : List (String × List (String × Finished K))

variable {K : Type}

def keep (trace : Option String) (f : Finished K) (timings : List (String × List (String × Finished K))) :
    List (String × List (String × Finished K)) :=
  match trace with
  | none => timings
  | some t => if t.isEmpty then timings else
      Keyed.put t (Keyed.put f.operation f ((Keyed.get? t timings).getD [])) timings

/-- The names that the record of an ended block gives itself. -/
def ownFields : List String := ["op", "ms", "ok"]

/-- Why the record of an ended block cannot be written, if it cannot: a label bears a name that is not free. -/
def refusal? (labels : List (String × Json)) : Option Fault :=
  (Logger.clash? (.plain .info) ownFields labels).or (Logger.overwriting? labels)

/-- Ends a block. A record that cannot be written makes the block fail. -/
def finish [Scalar K] (operation : String) (trace : Option String) (labels : List (String × Json)) (start : K)
    (failure : Option Fault) (s : State K) : Option Fault × State K :=
  match refusal? labels with
  | some refusal => (some refusal, s)
  | none =>
    let f : Finished K :=
      ⟨operation, labels, failure.map fun e => e.kind.name, (s.clock - start) * Scalar.ofNat 1000, s.clock⟩
    (failure, { s with ended := s.ended ++ [f], timings := keep trace f s.timings })

def around [Scalar K] (operation : String) (trace : Option String) (labels : List (String × Json))
    (work : State K → Option Fault × State K) (s : State K) : Option Fault × State K :=
  let worked := work s
  finish operation trace labels s.clock worked.1 worked.2

mutual

def run [Scalar K] : Step K → State K → Option Fault × State K
  | .wait time, s => (none, { s with clock := s.clock + time })
  | .raise failure, s => (some failure, s)
  | .guard catches body, s =>
    let worked := runAll body s
    (worked.1.filter fun e => !catches e, worked.2)
  | .block operation trace labels body, s => around operation trace labels (runAll body) s

/-- Takes steps in order up to the first one that a failure leaves. -/
def runAll [Scalar K] : List (Step K) → State K → Option Fault × State K
  | [], s => (none, s)
  | step :: rest, s =>
    match run step s with
    | (none, s) => runAll rest s
    | (some failure, s) => (some failure, s)

end

def timingsOf (trace : String) (s : State K) : List (String × Finished K) := (Keyed.get? trace s.timings).getD []

def clear (trace : Option String) (s : State K) : State K :=
  match trace with
  | none => { s with timings := [] }
  | some t => { s with timings := Keyed.erase t s.timings }

/-- The fields of the record of an ended block: whether it went well, its labels, and what failed if it has a name. -/
def fieldsOf (labels : List (String × Json)) (failure : Option String) : List (String × Json) :=
  ("ok", .bool failure.isNone) ::
    (match failure with
      | none => labels
      | some e => if e.isEmpty then labels else Json.setField "error" (.text e) labels)

def callOf (operation : String) (milliseconds : Float) (labels : List (String × Json)) (failure : Option String) :
    LogCall :=
  ⟨"vulnkb.probe", .plain .info, operation ++ " finished",
    ("op", .text operation) :: ("ms", .number (.decimal milliseconds)) :: fieldsOf labels failure⟩

def recordOf (operation : String) (milliseconds : Float) (labels : List (String × Json)) (failure : Option String) :
    Record :=
  let call := callOf operation milliseconds labels failure
  Record.ofCall .info call.source "probe" call.message call.fields

end Compendium.Probe
