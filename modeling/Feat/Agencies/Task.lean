import Mathlib.Data.List.Basic

/- A task and its medium (`AgencyTask` of `feat.agencies.tasks`, on `AgencyMiddleBase` of
   `feat.agencies.common`).

   `call_agent_side` queues a call of the agent's side, which is made at a later turn and may take
   any time. `cleanup` cancels the calls in their order: one that was not made yet is given up, and
   what was to follow it is done at once; one that was made is asked to stop, and the agent decides
   how it ends. Whatever the agent does meanwhile happens between two of these steps, and no call
   is made and no timeout fires before the last one. `finalize` does the same, but by then nothing
   that follows a call has an effect. -/
namespace Feat.Agencies

inductive TaskState where
  | performing
  | completed
  | expired
  | error
  | terminated
  deriving DecidableEq

/-- What a task may give as its result. -/
inductive TaskValue (V : Type) where
  | none
  | notDoneYet
  | other (value : V)
  deriving DecidableEq

/-- What a task may raise: `CancelledError`, `ProtocolExpired` or anything else. -/
inductive TaskError (E : Type) where
  | cancelled
  | protocolExpired (msg : String)
  | other (error : E)
  deriving DecidableEq

/-- The result of a task: a value, or an exception or failure. -/
inductive TaskResult (V E : Type) where
  | value (value : TaskValue V)
  | failure (error : TaskError E)
  deriving DecidableEq

/-- How a call ends: what it returns, which may be an exception too, or what it raises. -/
inductive TaskEnd (V E : Type) where
  | returned (result : TaskResult V E)
  | raised (error : TaskError E)
  deriving DecidableEq

/-- What is called on the agent's side: `_initiate`, `task.cancel`, `_expired` of the medium, or
    `task.expired`, which `_expired` waits for. -/
inductive TaskCall where
  | initiate
  | cancel
  | expire
  | expired
  deriving DecidableEq

structure TaskJob where
  call : TaskCall
  underWay : Bool
  deriving DecidableEq

/-- What the factory, the agent and the task say: whether the task is busy, its timeout, and the
    names in the text of an error. -/
structure TaskFactory where
  busy : Bool
  timeout : Option Nat
  typeName : String
  descriptorType : String
  agentId : String

/-- A task; `fired` is what the finish notification was fired with, and `cleanups` are the calls
    that a `cleanup` has still to cancel, the innermost first. -/
structure AgencyTask (V E : Type) where
  state : TaskState
  timeout : Bool
  jobs : List TaskJob
  result : Option (TaskResult V E)
  fired : List (TaskResult V E)
  cleanups : List (List TaskCall)

namespace AgencyTask
variable {V E : Type}

/-- What happens: a queued call is made, one that was made ends, a method of the medium is called,
    the timeout fires, or a cleanup goes on. -/
inductive Event (V E : Type) where
  | start (i : Nat)
  | ended (i : Nat) (how : TaskEnd V E)
  | terminate (arg : TaskResult V E)
  | fail (error : TaskError E)
  | cancel
  | cleanup
  | timeout
  | next

/-- `create_expired_error`. -/
def createExpiredError (f : TaskFactory) (msg : String) : TaskError E :=
  let errorMsg := f.descriptorType ++ " agent " ++ f.agentId ++ "'s protocol " ++ f.typeName ++
    " expired"
  .protocolExpired (if msg = "" then errorMsg else errorMsg ++ ": " ++ msg)

def forcedError (f : TaskFactory) : TaskError E := createExpiredError f "Forced expiration"

def timeoutError (f : TaskFactory) : TaskError E :=
  createExpiredError f ("Timeout of " ++ toString (f.timeout.getD 0) ++
    " seconds exceeded waiting for task.initiate() to finish")

/-- Whether `_error_handler` takes an exception for the cancellation of the call. -/
def swallowed : TaskError E → Bool
  | .cancelled => true
  | .protocolExpired _ => true
  | .other _ => false

/-- `initiate`. -/
def start (f : TaskFactory) : AgencyTask V E :=
  { state := .performing
    timeout := f.timeout.getD 0 ≠ 0
    jobs := [⟨.initiate, false⟩]
    result := none
    fired := []
    cleanups := [] }

section
variable (s : AgencyTask V E)

/-- `_finalize_called`. -/
def finalized : Bool := s.result.isSome

/-- `finished`. -/
def finished : Bool := s.state ≠ .performing

def setState (state : TaskState) : AgencyTask V E := { s with state }

/-- `cancel_timeout` and `cancel_agent_jobs`: the calls that were made run on. -/
def dropped : AgencyTask V E := { s with timeout := false, jobs := s.jobs.filter (·.underWay) }

/-- `finalize`. -/
def finalize (result : TaskResult V E) : AgencyTask V E :=
  if s.finalized then s
  else { s with result := some result, fired := s.fired ++ [result] }.dropped

/-- `call_agent_side`. -/
def callAgentSide (call : TaskCall) : AgencyTask V E :=
  { s with jobs := s.jobs ++ [⟨call, false⟩] }

/-- `_error_handler`. -/
def errorHandler (error : TaskError E) : AgencyTask V E :=
  if swallowed error then s else (s.setState .error).finalize (.failure error)

/-- `terminate`. -/
def terminate (arg : TaskResult V E) : AgencyTask V E := (s.setState .completed).finalize arg

/-- `fail`. -/
def fail (error : TaskError E) : AgencyTask V E := (s.setState .error).finalize (.failure error)

/-- `cancel`. -/
def cancel (f : TaskFactory) : AgencyTask V E :=
  if f.busy then s else if s.finalized then s else s.callAgentSide .cancel

/-- `_completed`. -/
def completed (arg : TaskResult V E) : AgencyTask V E :=
  match arg with
  | .value .notDoneYet => s
  | arg => if s.state = .performing then (s.setState .completed).finalize arg else s

/-- What follows a call on the agent's side, once its error is handled. -/
def follow (f : TaskFactory) (result : TaskResult V E) : TaskCall → AgencyTask V E
  | .cancel => s.finalize result
  | .expired => s.finalize (.failure (timeoutError f))
  | .initiate | .expire => s

/-- A queued call is made. `_expired` looks at the state first; it only calls `task.expired` and
    waits for it. -/
def make (i : Nat) (call : TaskCall) : AgencyTask V E :=
  match call with
  | .expire =>
    if s.state = .expired then { s with jobs := s.jobs.set i ⟨.expired, false⟩ }
    else { s with jobs := s.jobs.eraseIdx i }
  | call => { s with jobs := s.jobs.set i ⟨call, true⟩ }

/-- A call that was made ends. -/
def ended (f : TaskFactory) (i : Nat) (call : TaskCall)
    (how : TaskEnd V E) : AgencyTask V E :=
  let s := { s with jobs := s.jobs.eraseIdx i }
  match how, call with
  | .returned result, .initiate => s.completed result
  | .returned result, call => s.follow f result call
  | .raised error, call => (s.errorHandler error).follow f (.value .none) call

/-- `cleanup`: what is queued is to be cancelled in its order. -/
def cleanup : AgencyTask V E :=
  { s.dropped with
    cleanups := ((s.jobs.filter (!·.underWay)).map (·.call)) :: s.cleanups }

/-- `cleanup` goes on with the next call, or comes to its end. -/
def next (f : TaskFactory) : Option (AgencyTask V E) :=
  match s.cleanups with
  | [] => none
  | [] :: cleanups =>
    some { s.finalize (.failure (forcedError f)) with cleanups }
  | (call :: calls) :: cleanups =>
    some { s.follow f (.value .none) call with cleanups := calls :: cleanups }

/-- `_timeout_target`. -/
def timedOut : AgencyTask V E :=
  ({ s with timeout := false }.setState .expired).callAgentSide .expire

def step (f : TaskFactory) : Event V E → Option (AgencyTask V E)
  | .start i => match s.jobs[i]? with
    | some ⟨call, false⟩ => if s.cleanups = [] then some (s.make i call) else none
    | _ => none
  | .ended i how => match s.jobs[i]? with
    | some ⟨call, true⟩ => some (s.ended f i call how)
    | _ => none
  | .terminate arg => some (s.terminate arg)
  | .fail error => some (s.fail error)
  | .cancel => some (s.cancel f)
  | .cleanup => some s.cleanup
  | .timeout => if s.timeout ∧ s.cleanups = [] then some s.timedOut else none
  | .next => s.next f

end

end AgencyTask

end Feat.Agencies
