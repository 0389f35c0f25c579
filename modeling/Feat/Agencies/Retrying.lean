import Mathlib.Algebra.Order.Ring.Rat
import Mathlib.Data.List.Perm.Basic
import Mathlib.Data.List.Range
import Feat.Lib.Run
import Feat.Lib.Traces

/- A protocol that is tried again until it succeeds (`feat.agencies.retrying`).

   The attempts, the call that starts the first one, the delayed call of the next one and
   the firing of the notifier are of the reactor: they come as events. The handle of the
   delayed call is kept when it has been made (`delayedCall`), as in the source; what is
   scheduled is `calls`. The agent may have no alerts, and calls of those it has may
   fail. -/
namespace Feat.Agencies
open Transition

namespace RetryingProtocol

/-- What the agent makes of `raise_alert` and `resolve_alert`: it need not have them, and
    they need not go through for every service. -/
structure Agent where
  raiseAlert : Option (String → Bool)
  resolveAlert : Option (String → Bool)

/-- What a Deferred is fired with. -/
inductive Result where
  | success
  | failure
  | cancelled
  deriving DecidableEq

inductive Entry where
  | attempt
  | cancel
  | cleanup
  | raiseAlert (service : String)
  | resolveAlert (service : String)
  deriving DecidableEq

end RetryingProtocol

open RetryingProtocol

/-- Deferreds are numbered in the order they are asked for. -/
structure RetryingProtocol where
  agent : RetryingProtocol.Agent
  maxRetries : Option Int
  maxDelay : Option ℚ
  attempt : Nat
  delay : ℚ
  alertAfter : Option Int
  alertService : Option String
  delayedCall : Option Nat
  initiator : Bool
  fnotifier : Option (List Nat)
  bindNext : Bool
  calls : Option (Nat × ℚ)
  issued : Nat
  running : Bool
  firing : List (List Nat × Result)
  fired : List (Nat × Result)
  obtained : Nat
  log : List RetryingProtocol.Entry

namespace RetryingProtocol

/-- `RetryingProtocol(...)` and `initiate`. Both or none of the alert options are needed,
    otherwise a ValueError is raised. -/
def new (agent : Agent) (maxRetries : Option Nat) (initialDelay : ℚ) (maxDelay : Option ℚ)
    (alertAfter : Option Int) (alertService : Option String) : Option RetryingProtocol :=
  let alertAfter := match alertAfter with
    | some n =>
      if n ≠ 0 ∧ (agent.raiseAlert.isNone ∨ agent.resolveAlert.isNone) then none else some n
    | none => none
  if alertAfter.isSome ≠ alertService.isSome then none
  else some
    { agent := agent
      maxRetries := maxRetries.map Int.ofNat
      maxDelay := maxDelay
      attempt := 0
      delay := initialDelay
      alertAfter := alertAfter
      alertService := alertService
      delayedCall := none
      initiator := false
      fnotifier := some []
      bindNext := true
      calls := none
      issued := 0
      running := false
      firing := []
      fired := []
      obtained := 0
      log := [] }

/-- `notify_finish`, unless its assertion fails. -/
def notifyFinish (s : RetryingProtocol) : RetryingProtocol :=
  match s.fnotifier with
  | some waiters => { s with
      fnotifier := some (waiters ++ [s.obtained])
      obtained := s.obtained + 1 }
  | none => s

/-- `cancel_delayed_call`. -/
def cancelDelayedCall (id : Nat) (s : RetryingProtocol) : RetryingProtocol :=
  { s with calls := s.calls.filter fun call => call.1 ≠ id }

/-- `cancel` of the notifier, which is then forgotten. -/
def cancelNotifier (s : RetryingProtocol) : RetryingProtocol :=
  match s.fnotifier with
  | some waiters => { s with
      fired := s.fired ++ waiters.map fun w => (w, .cancelled)
      fnotifier := none }
  | none => s

/-- `cancel`. -/
def cancel (s : RetryingProtocol) : RetryingProtocol :=
  let s := { s with maxRetries := some (s.attempt - 1), log := s.log ++ [Entry.cancel] }
  match s.delayedCall with
  | some id => { cancelDelayedCall id s with delayedCall := none }
  | none =>
    let s := cancelNotifier s
    if s.initiator then { s with log := s.log ++ [.cleanup] } else s

/-- `_fire`, which is what `_bind` does. -/
def fire (s : RetryingProtocol) : RetryingProtocol :=
  { s with
    attempt := s.attempt + 1
    initiator := true
    running := true
    log := s.log ++ [.attempt] }

/-- `_trigger_callbacks`. -/
def triggerCallbacks (result : Result) (s : RetryingProtocol) : RetryingProtocol :=
  match s.fnotifier with
  | some waiters => { s with firing := s.firing ++ [(waiters, result)], fnotifier := none }
  | none => s

/-- A call of the agent's for the alert service: whether it goes through. -/
def goesThrough (call : Option (String → Bool)) (s : RetryingProtocol) : Bool :=
  match call, s.alertService with
  | some call, some service => call service
  | _, _ => false

/-- An alert is to be resolved: what `_finalize` looks at. -/
def resolves (s : RetryingProtocol) : Bool :=
  match s.alertAfter with
  | some after => s.attempt > after
  | none => false

/-- An alert is to be raised: what `_wait_and_retry` looks at. -/
def raises (s : RetryingProtocol) : Bool :=
  match s.alertAfter with
  | some after => s.attempt ≥ after
  | none => false

/-- What is left undone when the call for the alert fails. -/
def alerted (due : Bool) (call : Option (String → Bool)) (entry : String → Entry)
    (rest : RetryingProtocol → RetryingProtocol) (s : RetryingProtocol) : RetryingProtocol :=
  if due then
    if s.goesThrough call then
      rest { s with log := s.log ++ s.alertService.toList.map entry }
    else s
  else rest s

/-- `_finalize`. -/
def finalize (s : RetryingProtocol) : RetryingProtocol :=
  alerted s.resolves s.agent.resolveAlert .resolveAlert (triggerCallbacks .success) s

/-- The end of `_wait_and_retry`: another attempt, or none. -/
def retryOrStop (s : RetryingProtocol) : RetryingProtocol :=
  if ∃ n, s.maxRetries = some n ∧ s.attempt > n then triggerCallbacks .failure s
  else { s with
    calls := some (s.issued, s.delay)
    delayedCall := some s.issued
    issued := s.issued + 1
    delay := match s.maxDelay with
      | none => s.delay * 2
      | some most => if s.delay < most then min (2 * s.delay) most else s.delay }

/-- `_wait_and_retry`. -/
def waitAndRetry (s : RetryingProtocol) : RetryingProtocol :=
  let s := { s with initiator := false }
  alerted s.raises s.agent.raiseAlert .raiseAlert retryOrStop s

/-- What the holder of the protocol, the attempts and the reactor do. -/
inductive Event where
  | waited
  | cancelled
  | bound
  | retried
  | succeeded
  | failed
  | notified
  deriving DecidableEq

def step (s : RetryingProtocol) : Event → Option RetryingProtocol
  | .waited => some (notifyFinish s)
  | .cancelled => some (cancel s)
  | .bound => if s.bindNext then some (fire { s with bindNext := false }) else none
  | .retried => s.calls.map fun _ => fire { s with calls := none }
  | .succeeded => if s.running then some (finalize { s with running := false }) else none
  | .failed => if s.running then some (waitAndRetry { s with running := false }) else none
  | .notified =>
    match s.firing with
    | [] => none
    | (waiters, result) :: rest =>
      some { s with
        firing := rest
        fired := s.fired ++ waiters.map fun w => (w, result) }

end RetryingProtocol
end Feat.Agencies
