import Feat.Lib.Run
import Feat.Web.BaseProtocol

/- The protocol of the HTTP client (`feat.web.httpclient`: `Protocol`, `ResponseDecoder`).

   Requests are numbered in the order they are sent, and status lines in the order they are
   accepted: the response of a request stands at the position of its number. No code reads
   `heads`, the status lines that were accepted, or the marks that a response carries: the
   position of its status line, and whether its head was complete.

   An exception that leaves `lineReceived` or `rawDataReceived` makes the reactor lose the
   connection (`broken`); one that leaves a timeout is only logged. The timeouts strike at any
   time, but for the one of the first line, which is cancelled by the first line.

   Left out are what is written for a request, the messages of the errors, and what the callbacks
   of a request do before the response is put away. -/
namespace Feat.Web.Http
open HttpServer (Bytes HeaderValue Protocols)
open Transition

/-- The codes of `http.Status`. -/
def statusCodes : List Int :=
  [200, 201, 202, 203, 204, 205, 206, 207, 300, 301, 302, 303, 304, 305, 307, 400, 401, 402, 403,
    404, 405, 406, 407, 408, 409, 410, 411, 412, 413, 414, 415, 416, 417, 422, 500, 501, 502, 503,
    504, 505, 507, 510]

/-- The text up to a space, and what follows the space. -/
def splitSpace (s : Bytes) : Option (Bytes × Bytes) :=
  match s.dropWhile (· ≠ ' ') with
  | [] => none
  | _ :: rest => some (s.takeWhile (· ≠ ' '), rest)

/-- `parse_response_status`. -/
def parseResponseStatus (line : Bytes) : Option (Protocols × Int) := do
  let (protocol, rest) ← splitSpace line
  let (code, _) ← splitSpace rest
  let code ← parseInt code
  if code ∈ statusCodes then
    let protocol ← [Protocols.HTTP10, .HTTP11].find? (·.name = protocol)
    some (protocol, code)
  else none

namespace Client

/-- A response: what its head says, its body, and its marks. -/
structure Response where
  protocol : Option Protocols
  status : Option Int
  headers : List (Bytes × HeaderValue)
  length : Option Int
  body : Bytes
  position : Nat
  whole : Bool
  deriving DecidableEq, Repr

/-- `Response()`. -/
def Response.new (position : Nat) : Response := ⟨none, none, [], none, [], position, false⟩

/-- What a request is answered with: a response, or the cancellation or the timeout of a request,
or another error. -/
inductive Answer where
  | response (r : Response)
  | cancelled (request : Nat)
  | timedOut (request : Nat)
  | failed (e : Raised)
  | connectionReset
  deriving DecidableEq, Repr

/-- `_response`, the decoder of a request with what it has received. -/
structure Receiving where
  request : Nat
  response : Response

/-- The fields of `Protocol`. `decoded` are the requests whose decoder has fired, and `answers`
what the requests were answered with. -/
structure Connection where
  requests : Option (List Nat)
  response : Option Receiving
  sent : Nat
  heads : Nat
  decoded : List Nat
  answers : List (Nat × Answer)
  started : Bool
  closing : Bool
  broken : Bool

/-- A connection that was just made. -/
def Connection.new : Connection := ⟨some [], none, 0, 0, [], [], false, false, false⟩

/-- A request has its answer. -/
def Connection.Answered (c : Connection) (i : Nat) : Prop := i ∈ c.answers.map Prod.fst

instance (c : Connection) (i : Nat) : Decidable (c.Answered i) :=
  inferInstanceAs (Decidable (i ∈ c.answers.map Prod.fst))

/-- The decoder of a request fires. A request that was cancelled does not notice. -/
def Connection.settle (c : Connection) (i : Nat) (a : Answer) : Connection :=
  { c with
    decoded := c.decoded ++ [i]
    answers := if c.Answered i then c.answers else c.answers ++ [(i, a)] }

/-- The connection of a decoder is lost. -/
def settle (i : Nat) (a : Answer) : Action Connection Unit := do
  if i ∈ (← get).sub.decoded then throw .alreadyCalledError
  else modify fun p => { p with sub := p.sub.settle i a }

/-- The response that is received is put away with an answer, if there is one. -/
def putAway (answer : Receiving → Answer) : Action Connection Unit := do
  match (← get).sub.response with
  | none => pure ()
  | some r => do
    settle r.request (answer r)
    modify fun p => { p with sub := { p.sub with response := none } }

/-- `loseConnection` of the transport. -/
def loseConnection : Action Connection Unit :=
  modify fun p => { p with sub := { p.sub with closing := true } }

/-- `_client_error`. -/
def clientError (answer : Receiving → Answer) : Action Connection Unit := do
  putAway answer
  loseConnection

/-- `self._requests.pop(0)`. -/
def popRequest : Action Connection Nat := do
  match (← get).sub.requests with
  | none => throw .attributeError
  | some [] => throw .indexError
  | some (i :: rest) => do
    modify fun p => { p with sub := { p.sub with requests := some rest } }
    pure i

/-- `process_request_line`. -/
def processRequestLine (line : Bytes) : Action Connection Unit := do
  if (← get).sub.response.isSome then throw .assertionError
  else match parseResponseStatus line with
    | none => clientError fun _ => .failed .valueError
    | some (protocol, status) => do
      let i ← popRequest
      modify fun p => { p with sub := { p.sub with
        response := some ⟨i, { Response.new p.sub.heads with
          protocol := some protocol, status := some status }⟩
        heads := p.sub.heads + 1 } }
      setupIdentityDecoding none

/-- The response that is received is changed. -/
def withResponse (f : Response → Response) : Action Connection Unit := do
  match (← get).sub.response with
  | none => throw .assertionError
  | some r => modify fun p => { p with sub := { p.sub with
      response := some { r with response := f r.response } } }

/-- `process_body_finished`. -/
def processBodyFinished : Action Connection Unit := do
  let p ← get
  match p.sub.response with
  | none => throw .attributeError
  | some _ => putAway fun r => .response { r.response with whole := p.state = .body }

/-- `process_cleanup`. -/
def processCleanup : Action Connection Unit := do
  match (← get).sub.requests with
  | none => throw .typeError
  | some waiting => do
    waiting.forM fun i => settle i .connectionReset
    modify fun p => { p with sub := { p.sub with requests := none } }

/-- The value of a header that is set, or extended. -/
def extend (headers : List (Bytes × HeaderValue)) (name : Bytes) (values : List Bytes) :
    List (Bytes × HeaderValue) :=
  match headers.lookup name with
  | some (.fields old) => headers.filter (·.1 ≠ name) ++ [(name, .fields (old ++ values))]
  | _ => headers.filter (·.1 ≠ name) ++ [(name, .fields values)]

/-- The hooks of `Protocol`. -/
def hooks : Hooks Connection where
  processRequestLine := processRequestLine
  processLength length := withResponse fun r => { r with length := some length }
  processExtendHeader name values :=
    withResponse fun r => { r with headers := extend r.headers name values }
  processSetHeader name value := withResponse fun r =>
    { r with headers := r.headers.filter (·.1 ≠ name) ++ [(name, .text value)] }
  processBodyStart := pure ()
  processBodyData data := withResponse fun r => { r with body := r.body ++ data }
  processBodyFinished := processBodyFinished
  processReset := pure ()
  processCleanup := processCleanup
  processError e := putAway fun _ => .failed e

/-- `process_timeout`. -/
def processTimeout : Action Connection Unit := do
  let p ← get
  if p.state = .reqline ∧ p.sub.requests = some [] then loseConnection
  else do
    if p.state = .reqline then
      let i ← popRequest
      modify fun p => { p with sub := { p.sub with
        response := some ⟨i, .new p.sub.heads⟩ } }
    match (← get).sub.response with
    | none => throw .attributeError
    | some r => clientError fun _ => .timedOut r.request

/-- `_cancel_request`, called for a request that is not answered. -/
def cancelRequest (i : Nat) : Action Connection Unit := do
  modify fun p => { p with sub := { p.sub with answers := p.sub.answers ++ [(i, .cancelled i)] } }
  clientError fun _ => .cancelled i

/-- What happens to a connection. -/
inductive Event where
  | request
  | line (line : Bytes) (decoding : Decoding)
  | data (decoding : Decoding)
  | timeout (firstline : Bool)
  | cancel (request : Nat)
  | lost

/-- A program that the reactor runs on received data. -/
def received (a : Action Connection Unit) (p : Protocol Connection) : Protocol Connection :=
  match a p with
  | .ok _ q => q
  | .error _ q => { q with sub := { q.sub with broken := true } }

/-- One event. -/
def step (maxHeaders : Nat) (p : Protocol Connection) : Event → Option (Protocol Connection)
  | .request =>
    match p.sub.requests with
    | some waiting =>
      if p.sub.broken then none
      else some { p with sub := { p.sub with
        requests := some (waiting ++ [p.sub.sent]), sent := p.sub.sent + 1 } }
    | none => none
  | .line line decoding =>
    if p.sub.requests.isSome ∧ ¬ p.sub.broken ∧ p.lineMode then
      some (received (lineReceived hooks maxHeaders line decoding)
        { p with sub := { p.sub with started := true } })
    else none
  | .data decoding =>
    if p.sub.requests.isSome ∧ ¬ p.sub.broken ∧ ¬ p.lineMode then
      some (received (handleReceived hooks decoding) p)
    else none
  | .timeout firstline =>
    if p.sub.requests.isSome ∧ ¬ p.sub.broken ∧ (firstline → ¬ p.sub.started) then
      some (final processTimeout (if firstline then { p with bodyDecoder := none } else p))
    else none
  | .cancel i =>
    if i < p.sub.sent ∧ ¬ p.sub.broken then
      if p.sub.Answered i then some p else some (final (cancelRequest i) p)
    else none
  | .lost =>
    if p.sub.requests.isSome then
      let q := final (connectionLost hooks) p
      some { q with sub := { q.sub with broken := false } }
    else none

end Client
end Feat.Web.Http
