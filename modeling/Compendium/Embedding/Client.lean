import Compendium.Embedding.Basic
import Compendium.Json.Reader
import Compendium.Meter
import Compendium.Record
import Compendium.Settings.Basic

/-! The client of an embedding endpoint: it sends a request, sends it again when the connection fails for the
moment, and reads the vector out of the answer. -/
namespace Compendium.Embedding

open Number (Numeral)

structure Loss where
  name : String
  detail : String

/-- Troubles after which sending again may help: the connection failed, or something took too long. -/
def transientNames : List String :=
  ["ConnectError", "TimeoutException", "ConnectTimeout", "ReadTimeout", "WriteTimeout", "PoolTimeout"]

def Loss.isTransient (l : Loss) : Bool := transientNames.contains l.name

/-- Troubles that are no trouble of transport and that the client does not expect. -/
def unexpectedNames : List String := ["InvalidURL", "CookieConflict", "StreamError"]

inductive Reply where
  | answer (status : Int) (body : String)
  | lost (loss : Loss)

def Reply.isTransient : Reply → Bool
  | .answer _ _ => false
  | .lost l => l.isTransient

structure Sending where
  url : String
  authorization : Option String
  body : Json
  timeout : Float

def sendingOf (s : EmbeddingSettings) (text : String) (timeout : Option Numeral) : Sending where
  url := s.url ++ "/embeddings"
  authorization := s.key.bind fun k => if k.isEmpty then none else some ("Bearer " ++ k)
  body := .object [("model", .text s.model), ("input", .text text)]
  timeout := (timeout.map Numeral.toFloat).getD s.timeout

/-- Why no request can be sent, if none can: what a request says about itself has to be in ASCII. -/
def unsendable? (s : Sending) : Option Fault :=
  match s.authorization with
  | none => none
  | some a =>
    let before := (a.toList.takeWhile fun c => c.toNat < 128).length
    match (a.toList.drop before).takeWhile fun c => 128 ≤ c.toNat with
    | [] => none
    | run => some (.notAscii before run)

/-- Seconds to wait before the request of a number is sent again: half a second, doubled each time up to eight. -/
def waitAfter (attempt : Nat) : Float := (min 16 (Number.twoTo (attempt - 1))).toFloat / 2.0

def waits (times : Nat) : List Float := (List.range (times - 1)).map fun i => waitAfter (i + 1)

/-- What a call does while it asks the endpoint. -/
inductive Move where
  | sends (s : Sending) (reply : Reply)
  | waits (seconds : Float)
  | logs (r : Record)

def Move.reply? : Move → Option Reply
  | .sends _ reply => some reply
  | _ => none

def Move.sending? : Move → Option Sending
  | .sends s _ => some s
  | _ => none

def Move.wait? : Move → Option Float
  | .waits seconds => some seconds
  | _ => none

/-- Sends a request for the time of some number; from the second time on this is logged. -/
def attempt (s : Sending) (model : String) (number : Nat) (reply : Reply) : List Move :=
  if number ≤ 1 then [.sends s reply]
  else
    [.logs (Record.ofCall .warning "embedding" "_request" "Retrying embedding request"
      [("attempt", .nat number), ("model", .text model)]), .sends s reply]

/-- Sends a request, and up to `more` times again while the reply is transient, with a wait before each time.
`replies` tells what comes back for each request, of which `sent` were sent before. -/
def exchange (s : Sending) (model : String) (replies : Nat → Reply) : (more number sent : Nat) → List Move
  | 0, number, sent => attempt s model number (replies sent)
  | more + 1, number, sent =>
    attempt s model number (replies sent) ++
      if (replies sent).isTransient then
        .waits (waitAfter number) :: exchange s model replies more (number + 1) (sent + 1)
      else []

/-- The value at the first embedding of an answer. -/
def firstVector? (payload : Json) : Option Json := do
  let data ← payload.field? "data"
  let first ← (← data.list?).head?
  first.field? "embedding"

/-- The vector of an answer: a flat list of numbers that are all finite. -/
def ofPayload (payload : Json) : Except Fault Embedding :=
  match firstVector? payload with
  | none => .error (.embedding .malformed)
  | some raw =>
    match shapeAndFloats raw with
    | .error .tooLarge => .error (.vector .tooLarge)
    | .error _ => .error (.embedding .notNumeric)
    | .ok (shape, xs) =>
      let v := ofFloats xs
      if shape.length != 1 || v.isEmpty then .error (.embedding .notFlat)
      else if !v.all Number.Single.isFinite then .error (.embedding .notFinite)
      else .ok v

/-- A body without the mark of its encoding. -/
def withoutMark : List Char → List Char
  | '\ufeff' :: r => r
  | s => s

def isSuccess (status : Int) : Bool := 200 ≤ status && status < 300

def ofReply : Reply → Except Fault Embedding
  | .lost l =>
    if unexpectedNames.contains l.name then .error (.raised (.named l.name) l.detail)
    else .error (.embedding (.unreachable l.detail))
  | .answer status body =>
    if !isSuccess status then .error (.embedding (.refused status body))
    else
      match Json.parse? (withoutMark body.toList) with
      | none => .error (.embedding (.notJson body))
      | some payload => ofPayload payload

def troubleOf? : Reply → Option String
  | .lost l => if unexpectedNames.contains l.name then none else some "transport"
  | .answer status _ => if isSuccess status then none else some "status"

def measured (model : String) (duration : Float) (trouble : Option String) (m : Meter) : Meter :=
  let m := m.timed "vulnkb_embedding_request" (.decimal duration) [("model", .text model)]
  match trouble with
  | none => m
  | some kind => m.add "vulnkb_embedding_errors_total" "" "1" (.whole 1) (some [("kind", .text kind)])

structure Call where
  outcome : Except Fault Embedding
  moves : List Move
  meter : Meter

namespace Call

def requests (c : Call) : List Sending := c.moves.filterMap Move.sending?

def times (c : Call) : Nat := c.requests.length

def waits (c : Call) : List Float := c.moves.filterMap Move.wait?

end Call

/-- What comes of the moves of a call: the last reply decides. -/
def ofMoves (moves : List Move) : Except Fault Embedding :=
  match (moves.filterMap Move.reply?).getLast? with
  | some last => ofReply last
  | none => .error (.embedding .notAttempted)

/-- Embeds a text when `sent` requests were sent before. -/
def call (s : EmbeddingSettings) (replies : Nat → Reply) (sent : Nat) (text : String) (m : Meter)
    (timeout : Option Numeral := none) : Call :=
  if Text.isBlankText text then ⟨.error (.embedding .blankText), [], m⟩
  else
    let sending := sendingOf s text timeout
    match unsendable? sending with
    | some f => ⟨.error f, [], measured s.model 0.0 none m⟩
    | none =>
      let moves := exchange sending s.model replies (s.attempts - 1).toNat 1 sent
      let trouble := (moves.filterMap Move.reply?).getLast?.bind troubleOf?
      ⟨ofMoves moves, moves, measured s.model 0.0 trouble m⟩

end Compendium.Embedding
