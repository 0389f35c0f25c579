import Feat.Agencies.Medium

/- A request and its replies (`AgencyRequester` and `AgencyReplier` of
   `feat.agencies.requests`, over `AgencyMiddleBase`).

   A requester is modelled with what `finalize` is called with, and its jobs in the order they
   were made, the order in which they are cancelled. A job is known by the call it makes: a
   message reaches a medium once, as messages have ids of their own and a duplicate is thrown away
   where it is received. A handler that is cancelled ends at once.

   A reply is known by its place on the wire. It may be lost, and arrive in any order and at any
   time; a timeout may fire at any time. `given`, `told`, `late` and `raised` are for the record:
   the replies that `got_reply` was called with, whether `closed` was called, the replies that
   arrived after `finalize`, and whether `on_message` raised an error. -/
namespace Feat.Agencies.Requests

/-- `RequestState`, as far as a request goes. -/
inductive RequestState where
  | none
  | requested
  | closed
  | wtf
  deriving DecidableEq, Repr

/-! ## The requester -/

/-- What a job of a requester calls: methods of the agent's side, or `_run_and_terminate` with
`closed`. -/
inductive Call where
  | initiate
  | gotReply (reply : Nat)
  | runAndTerminate
  | closed
  deriving DecidableEq, Repr

/-- What `finalize` is called with: the result of `got_reply`, `ProtocolFailed`, the failure of a
call, or `create_expired_error`. -/
inductive Result where
  | success (reply : Nat)
  | protocolFailed
  | failure (call : Call)
  | expired
  deriving DecidableEq, Repr

/-- `AgencyRequester`. A job is marked when its handler is called. -/
structure AgencyRequester where
  state : RequestState
  timeout : Bool
  jobs : List (Call × Bool)
  result : Option Result
  registered : Bool
  given : List Nat
  told : Bool
  late : List Nat
  raised : Bool
  deriving Repr

namespace AgencyRequester

/-- `_finalize_called`. -/
def finalizeCalled (r : AgencyRequester) : Bool := r.result.isSome

/-- `call_agent_side`, which raises an error after `finalize`. -/
def callAgentSide (call : Call) (r : AgencyRequester) : Option AgencyRequester :=
  if r.finalizeCalled then Option.none else some { r with jobs := r.jobs ++ [(call, false)] }

/-- `finalize`, with the `cleanup` it does. -/
def finalize (result : Result) (r : AgencyRequester) : AgencyRequester :=
  if r.finalizeCalled then r
  else { r with result := some result, timeout := false, jobs := [] }

/-- What follows a job that has ended without an error, or is cancelled. -/
def ended (call : Call) (r : AgencyRequester) : AgencyRequester :=
  match call with
  | .gotReply reply => r.finalize (.success reply)
  | .closed => r.finalize .protocolFailed
  | .initiate | .runAndTerminate => r

/-- `cleanup`. The jobs are cancelled before the result is set. -/
def cleanup (r : AgencyRequester) : AgencyRequester :=
  let cancelled := (r.jobs.map Prod.fst).foldl (fun r call => r.ended call)
    { r with timeout := false, jobs := [] }
  cancelled.finalize .expired

/-- `initiate`. -/
def initiate : AgencyRequester :=
  ⟨.requested, true, [(.initiate, false)], Option.none, true, [], false, [], false⟩

/-- `on_message` and `_on_reply`. -/
def onMessage (reply : Nat) (r : AgencyRequester) : AgencyRequester :=
  let r := if r.finalizeCalled then { r with late := r.late ++ [reply] } else r
  if r.state = .requested then
    let r := { r with timeout := false }
    match r.callAgentSide (.gotReply reply) with
    | some r => r
    | Option.none => { r with raised := true }
  else r

/-- The timeout fires: `_timeout_target`. -/
def fire (r : AgencyRequester) : Option AgencyRequester :=
  if r.timeout then
    callAgentSide .runAndTerminate { r with timeout := false, state := .closed }
  else Option.none

/-- The state that a job ensures. -/
def ensureState : Call → Option RequestState
  | .initiate | .gotReply _ => some .requested
  | .runAndTerminate => some .closed
  | .closed => Option.none

/-- The job of a call is done. -/
def removeAgentJob (call : Call) (r : AgencyRequester) : AgencyRequester :=
  { r with jobs := r.jobs.filter (·.1 ≠ call) }

/-- The handler of a call is called. -/
def underWay (call : Call) (r : AgencyRequester) : AgencyRequester :=
  { r with jobs := r.jobs.map fun job => if job.1 = call then (call, true) else job }

/-- A job is started. -/
def start (call : Call) (r : AgencyRequester) : Option AgencyRequester :=
  if (call, false) ∈ r.jobs then
    if ∀ state ∈ ensureState call, r.state = state then
      match call with
      | .initiate => some (r.underWay call)
      | .gotReply reply => some { r.underWay call with given := r.given ++ [reply] }
      | .runAndTerminate => (r.removeAgentJob call).callAgentSide .closed
      | .closed => some { r.underWay call with told := true }
    else some ((r.removeAgentJob call).ended call)
  else Option.none

/-- The handler of a call is done, or has failed: `_error_handler`. -/
def finish (call : Call) (failed : Bool) (r : AgencyRequester) : Option AgencyRequester :=
  if (call, true) ∈ r.jobs then
    let r := r.removeAgentJob call
    if failed then some (finalize (.failure call) { r with state := .wtf })
    else some (r.ended call)
  else Option.none

/-- The notification of the end, upon which the agency forgets the medium. -/
def notifyFinish (r : AgencyRequester) : Option AgencyRequester :=
  if r.finalizeCalled ∧ r.registered then some { r with registered := false } else Option.none

end AgencyRequester

/-! ## The replier -/

inductive ReplierCallback where
  | requested
  deriving DecidableEq

inductive ReplierMethod where
  | finalize
  deriving DecidableEq

/-- `AgencyReplier`. What it sends are replies. -/
abbrev AgencyReplier : Type := Medium RequestState ReplierCallback ReplierMethod Unit Unit

namespace AgencyReplier

/-- A replier after `initiate`. -/
def new : AgencyReplier := ⟨.requested, Option.none, [], false, [.entered .requested]⟩

/-- `on_message` and `_requested`. -/
def onMessage (m : AgencyReplier) : AgencyReplier :=
  if m.state = .requested then
    (m.setTimeout (some .closed) (.own .finalize)).callAgentSide (.agent .requested)
      (some .requested) false
  else m

/-- `reply`. -/
def reply (m : AgencyReplier) : AgencyReplier :=
  ((m.record [.sent ()]).cancelTimeout.setState .closed).finalize

/-- The methods of the medium that jobs call. -/
def own : ReplierMethod → AgencyReplier → AgencyReplier
  | .finalize => Medium.finalize

end AgencyReplier

/-! ## A request with its repliers -/

/-- A requester, the request messages it has sent, the repliers, which replier a reply on the wire
comes from, and the replies that were received. -/
structure System where
  requester : AgencyRequester
  requests : Nat
  repliers : List AgencyReplier
  wire : List Nat
  received : List Nat

/-- A requester was initiated. -/
def System.new : System := ⟨.initiate, 0, [], [], []⟩

inductive Event where
  | request
  | receiveRequest
  | handleRequest (replier : Nat)
  | reply (replier : Nat)
  | fireReplier (replier : Nat)
  | startReplier (replier : Nat) (job : Job RequestState ReplierCallback ReplierMethod)
  | finishReplier (replier : Nat) (job : Job RequestState ReplierCallback ReplierMethod)
      (failed : Bool)
  | cleanupReplier (replier : Nat)
  | receiveReply (reply : Nat)
  | fire
  | start (call : Call)
  | finish (call : Call) (failed : Bool)
  | cleanup
  | notifyFinish

/-- A replier changes. -/
def System.withReplier (s : System) (i : Nat) (f : AgencyReplier → Option AgencyReplier) :
    Option System := do
  let replier ← s.repliers[i]?
  let replier ← f replier
  some { s with repliers := s.repliers.set i replier }

/-- The requester changes. -/
def System.withRequester (s : System) (r : Option AgencyRequester) : Option System :=
  r.map fun r => { s with requester := r }

/-- One event. -/
def step (s : System) : Event → Option System
  | .request =>
    some (if s.requester.state = .requested then { s with requests := s.requests + 1 } else s)
  | .receiveRequest =>
    if s.requests = 0 then none else some { s with repliers := s.repliers ++ [.new] }
  | .handleRequest i => s.withReplier i fun m => some m.onMessage
  | .reply i => do
    let s ← s.withReplier i fun m => some m.reply
    some { s with wire := s.wire ++ [i] }
  | .fireReplier i => s.withReplier i Medium.fire
  | .startReplier i job => s.withReplier i (Medium.start AgencyReplier.own job)
  | .finishReplier i job failed => s.withReplier i (Medium.finish .wtf job failed)
  | .cleanupReplier i => s.withReplier i fun m => some m.finalize
  | .receiveReply reply =>
    if reply < s.wire.length ∧ reply ∉ s.received then
      let s := { s with received := s.received ++ [reply] }
      if s.requester.registered then some { s with requester := s.requester.onMessage reply }
      else some s
    else none
  | .fire => s.withRequester s.requester.fire
  | .start call => s.withRequester (s.requester.start call)
  | .finish call failed => s.withRequester (s.requester.finish call failed)
  | .cleanup => if s.requester.registered then some { s with requester := s.requester.cleanup }
    else none
  | .notifyFinish => s.withRequester s.requester.notifyFinish

end Feat.Agencies.Requests
