import Feat.Lib.Hash
import Feat.Lib.Run
import Feat.Lib.Turns

/- Requests pipelined on a channel of the HTTP server (`feat.web.httpserver`: `Request`,
   `Channel`; `feat.web.http`: `compose_response`, `compose_headers`, `compose_cookies`).

   Strings of the source are byte strings (`Bytes`). `Channel.requests` are all requests the
   channel has built, the first `done` of which `request_done` has deleted, and `transport` is
   what was put on the transport of the channel, each byte with the request that put it there.
   No code reads `produced`, the bytes that a request has written.

   What the handlers of a request do is left open: between two events of the channel they call
   any methods of any requests (`Event`). An exception of a handler is the event `makeError`,
   and the `http_error` of a handler is one, too.

   Left out are the timeouts and parse errors of the channel, the loss of its connection, what
   is received with a request but for what decides whether the connection is kept, and header
   values that are given as lists. -/
namespace Feat.Web.HttpServer
open Hash Transition

abbrev Bytes : Type := List Char

/-- `http.Protocols`. -/
inductive Protocols where
  | HTTP10
  | HTTP11
  deriving DecidableEq, Repr

def Protocols.name : Protocols → Bytes
  | .HTTP10 => "HTTP/1.0".toList
  | .HTTP11 => "HTTP/1.1".toList

/-! ## Composing the head of a response -/

/-- `MULTIFIELD_HEADERS`. -/
def multifieldHeaders : List Bytes :=
  ["accept", "accept-charset", "accept-encoding", "accept-language", "accept-ranges", "allow",
    "cache-control", "connection", "content-encoding", "content-language", "expect", "pragma",
    "proxy-authenticate", "te", "trailer", "transfer-encoding", "upgrade", "via", "warning",
    "www-authenticate", "x-accept-authentication", "supported"].map String.toList

/-- `is_header_multifield`. -/
def isHeaderMultifield (name : Bytes) : Bool := multifieldHeaders.contains name

/-- `str.lower`. -/
def lower (s : Bytes) : Bytes := s.map Char.toLower

/-- `str.capitalize`. -/
def capitalize : Bytes → Bytes
  | [] => []
  | c :: cs => c.toUpper :: lower cs

def isSpace (c : Char) : Bool := " \t\n\r\x0b\x0c".toList.contains c

/-- `str.strip`. -/
def strip (s : Bytes) : Bytes := ((s.dropWhile isSpace).reverse.dropWhile isSpace).reverse

/-- A value of `_headers`: a list of fields for the headers that have several. -/
inductive HeaderValue where
  | text (value : Bytes)
  | fields (values : List Bytes)
  deriving DecidableEq, Repr

/-- The name of a header as it is sent. -/
def capname (name : Bytes) : Bytes :=
  if name.any fun c => 'A' ≤ c && c ≤ 'Z' then name
  else ['-'].intercalate ((name.splitOn '-').map capitalize)

/-- `compose_response`. -/
def composeResponse (status : Nat) (protocol : Protocols) (message : Bytes) : Bytes :=
  protocol.name ++ [' '] ++ (toString status).toList ++ [' '] ++ message

/-- A line of `compose_headers`. -/
def composeHeader (name : Bytes) (value : HeaderValue) : Bytes :=
  capname name ++ ": ".toList ++
    match value with
    | .text value => value
    | .fields values => ", ".toList.intercalate values

/-- A line of `compose_cookies`. -/
def composeCookie (name payload : Bytes) : Bytes :=
  "Set-Cookie: ".toList ++ name ++ ['='] ++ payload

/-! ## Requests -/

/-- What is known of a request when its headers are received. `connection` is the value of the
header of that name. -/
structure RequestInfo where
  protocol : Protocols
  length : Option Nat
  connection : Option (List Bytes)

/-- `Request.transport`: none, a private `StringTransport` with its value, or the transport of the
channel. -/
inductive Transport where
  | none
  | buffer (value : Bytes)
  | channel
  deriving DecidableEq, Repr

/-- `Request`. `leaving` says that its `_cleanup` is scheduled. -/
structure Request where
  protocol : Protocols
  bodyLength : Option Nat
  headers : Dict Bytes HeaderValue
  cookies : Dict Bytes Bytes
  length : Option Int
  bytesSent : Nat
  activated : Bool
  writing : Bool
  finished : Bool
  persistent : Bool
  received : Bool
  statusCode : Nat
  statusMessage : Bytes
  transportActivated : Bool
  transport : Transport
  leaving : Bool
  produced : Bytes

/-- The messages of the status codes that are known, and the order in which tables are
iterated. -/
structure Env where
  responses : Nat → Option Bytes
  order : HashOrder Bytes

variable (env : Env)

/-- `get_status_message`. -/
def getStatusMessage (code : Nat) : Bytes := (env.responses code).getD "Unknown".toList

/-- What `_parse_headers` makes of the header `connection`. -/
def keepsConnection (info : RequestInfo) : Bool :=
  match info.connection with
  | none => true
  | some tokens =>
    match info.protocol with
    | .HTTP11 => !(tokens.map lower).contains "close".toList
    | .HTTP10 => (tokens.map lower).contains "keep-alive".toList

/-- `Request.__init__`. -/
def Request.new (info : RequestInfo) (active : Bool) : Request where
  protocol := info.protocol
  bodyLength := info.length
  headers := ∅
  cookies := ∅
  length := none
  bytesSent := 0
  activated := false
  writing := false
  finished := false
  persistent := keepsConnection info
  received := false
  statusCode := 200
  statusMessage := getStatusMessage env 200
  transportActivated := false
  transport := if active then .none else .buffer []
  leaving := false
  produced := []

namespace Request

/-- `set_header`. -/
def setHeader (r : Request) (name value : Bytes) : Request :=
  let header := lower name
  if isHeaderMultifield header then
    let fields := match r.headers.lookup header with
      | some (.fields values) => values
      | _ => []
    { r with
      headers := r.headers.insert header (.fields (fields ++ (value.splitOn ',').map strip)) }
  else { r with headers := r.headers.insert header (.text value) }

/-- `set_response_code`. -/
def setResponseCode (r : Request) (code : Nat) (message : Option Bytes) : Request :=
  { r with
    statusCode := code
    statusMessage := match message with
      | some (c :: cs) => c :: cs
      | _ => getStatusMessage env code }

/-- The methods that change the head of the response. -/
inductive Preparation where
  | setHeader (name value : Bytes)
  | clearHeaders
  | removeHeader (name : Bytes)
  | setLength (length : Int)
  | setResponseCode (code : Nat) (message : Option Bytes)
  | addCookie (name payload : Bytes)

/-- What these methods do. They assert that the head is not sent. -/
def prepare (r : Request) (p : Preparation) : Request :=
  if r.writing then r
  else match p with
    | .setHeader name value => r.setHeader name value
    | .clearHeaders => { r with headers := ∅ }
    | .removeHeader name => { r with headers := r.headers.erase (lower name) }
    | .setLength length =>
      { r with length := some length }.setHeader "content-length".toList (toString length).toList
    | .setResponseCode code message => r.setResponseCode env code message
    | .addCookie name payload => { r with cookies := r.cookies.insert name payload }

/-- `self.transport.write`, and the bytes that this puts on the transport of the channel. -/
def put (r : Request) (data : Bytes) : Request × Bytes :=
  match r.transport with
  | .none => (r, [])
  | .buffer value =>
    ({ r with transport := .buffer (value ++ data), produced := r.produced ++ data }, [])
  | .channel => ({ r with produced := r.produced ++ data }, data)

/-- `_activate_transport`. -/
def activateTransport (r : Request) : Request × Bytes :=
  if r.transportActivated then (r, [])
  else
    ({ r with transport := .channel, transportActivated := true },
      match r.transport with
      | .buffer value => value
      | _ => [])

/-- The last changes of the headers in `_write_headers`. -/
def settle (r : Request) : Request :=
  let r := if r.length = none then { r with persistent := false } else r
  match r.protocol with
  | .HTTP11 => if r.persistent then r else r.setHeader "connection".toList "close".toList
  | .HTTP10 => if r.persistent then r.setHeader "connection".toList "Keep-Alive".toList else r

/-- The head of the response. -/
def head (r : Request) : Bytes :=
  let lines := composeResponse r.statusCode r.protocol r.statusMessage ::
    (Dict.items env.order r.headers).map (fun p => composeHeader p.1 p.2) ++
    (Dict.items env.order r.cookies).map fun p => composeCookie p.1 p.2
  (lines.map (· ++ "\r\n".toList)).flatten ++ "\r\n".toList

/-- `_write_headers`. -/
def writeHeaders (r : Request) : Request × Bytes :=
  if r.writing then (r, [])
  else
    let (r, flushed) := { r.settle with writing := true }.activateTransport
    let (r, sent) := r.put (r.head env)
    (r, flushed ++ sent)

/-- `write`. More than the specified length is an error, which is raised when the head is sent. -/
def write (r : Request) (data : Bytes) : Request × Bytes :=
  if data = [] then (r, [])
  else
    let (r, head) := r.writeHeaders env
    if r.length.any fun length : Int => length < data.length + r.bytesSent then (r, head)
    else
      let (r, sent) := { r with bytesSent := r.bytesSent + data.length }.put data
      (r, head ++ sent)

/-- `finish`. To finish twice is an assertion error. -/
def finish (r : Request) : Request × Bytes :=
  if r.finished then (r, [])
  else
    let kept := r.persistent && (r.bodyLength.getD 0 == 0 || r.received)
    let (r, sent) := { r with finished := true, persistent := kept }.writeHeaders env
    (if r.activated then { r with leaving := true } else r, sent)

/-- `_make_error`. -/
def makeError (r : Request) (code : Nat) (message : Option Bytes) : Request × Bytes :=
  let r := { r with persistent := false }
  if r.finished then (r, [])
  else if r.writing then r.finish env
  else { r.setResponseCode env code message with headers := ∅ }.finish env

/-- `activate` up to the call of the handler. To activate twice is an assertion error. -/
def activate (r : Request) : Request × Bytes :=
  if r.activated then (r, [])
  else
    let (r, flushed) := { r with activated := true }.activateTransport
    (if r.finished then { r with leaving := true } else r, flushed)

/-- The end of `initiate`, when the handler has been called. -/
def initiated (r : Request) : Request × Bytes :=
  if r.transport = .none then r.activate else (r, [])

/-- `allContentReceived` up to the call of the handler. -/
def allContentReceived (r : Request) : Request :=
  if r.finished then r else { r with received := true }

end Request

/-! ## The channel -/

/-- `Channel`. While `initiating`, the handler of the last request is being called for the first
time. -/
structure Channel where
  requests : List Request
  done : Nat
  initiating : Bool
  disconnecting : Bool
  transport : List (Nat × Char)

def Channel.new : Channel := ⟨[], 0, false, false, []⟩

/-- What happens at a channel. Requests are given by the order in which they were received. -/
inductive Event where
  | bodyStart (info : RequestInfo)
  | initiated
  | allContentReceived
  | prepare (i : Nat) (p : Request.Preparation)
  | write (i : Nat) (data : Bytes)
  | finish (i : Nat)
  | makeError (i : Nat) (code : Nat) (message : Option Bytes)
  | cleanup (i : Nat)

namespace Channel

/-- A method of one of the requests. -/
def act (s : Channel) (i : Nat) (f : Request → Request × Bytes) : Option Channel :=
  s.requests[i]?.map fun r =>
    { s with
      requests := s.requests.set i (f r).1
      transport := s.transport ++ Turns.tagged i (f r).2 }

/-- `process_body_start` up to the call of the handler. A transport that is being closed reads
nothing more. -/
def processBodyStart (s : Channel) (info : RequestInfo) : Option Channel :=
  if s.initiating || s.disconnecting then none
  else
    some { s with
      requests := s.requests ++ [.new env info (s.requests.length == s.done)]
      initiating := true }

/-- `request_done` when the request is deleted: the next one is activated, if there is one. -/
def activateNext (s : Channel) (persistent : Bool) : Option Channel :=
  if persistent then
    if s.done < s.requests.length then s.act s.done Request.activate else some s
  else some { s with disconnecting := true }

/-- The scheduled `_cleanup` of a request. For any request but the first that is left
`request_done` is an assertion error. -/
def cleanup (s : Channel) (i : Nat) : Option Channel :=
  match s.requests[i]? with
  | none => none
  | some r =>
    if s.initiating || !r.leaving then none
    else
      (s.act i fun r => ({ r with leaving := false }, [])).bind fun s =>
        if i = s.done then { s with done := s.done + 1 }.activateNext r.persistent else some s

/-- The events that can happen, and what they do. -/
def step (s : Channel) : Event → Option Channel
  | .bodyStart info => s.processBodyStart env info
  | .initiated =>
    if s.initiating then
      { s with initiating := false }.act (s.requests.length - 1) Request.initiated
    else none
  | .allContentReceived =>
    if s.initiating || s.disconnecting then none
    else s.act (s.requests.length - 1) fun r => (r.allContentReceived, [])
  | .prepare i p => s.act i fun r => (r.prepare env p, [])
  | .write i data => s.act i fun r => r.write env data
  | .finish i => s.act i (Request.finish env)
  | .makeError i code message =>
    if i < s.done then none else s.act i fun r => r.makeError env code message
  | .cleanup i => s.cleanup i

end Channel

end Feat.Web.HttpServer
