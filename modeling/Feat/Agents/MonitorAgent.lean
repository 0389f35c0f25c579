import Mathlib.Logic.Function.Basic

/- The table of the deaths that a monitor agent handles (`MonitorAgent` of
   `feat.agents.monitor.monitor_agent`, with the life of its `HandleDeath` tasks and of their
   medium, `AgencyTask`).

   What is called with `call_next` is called in the order it was queued: `initiate` of a task,
   `_bind_unregistering_self`, `restart_complete`, and the notification of the end of a task.
   A task ends by `terminate`, by `fail` or by an error, at any time after it was initiated; what
   it does before is left out, and so is what `restart_complete` does in the task, which can
   only end it. `restart_handeled` ends a task at any time, also before it was initiated.

   The partner that `find_partner` finds is given, with its `instance_id`. -/
namespace Feat.Agents.Monitor.Deaths

/-- What `finalize` is called with: a result, or a failure. -/
inductive Outcome where
  | completed
  | error
  deriving DecidableEq, Repr

/-- `HandleDeath`. `unregistering` is set when `_unregister_task` is bound to the success of
`notify_finish`, and `notified` when the end is notified. -/
structure HandleDeath where
  recp : Nat
  initiated : Bool
  unregistering : Bool
  result : Option Outcome
  notified : Bool
  deriving DecidableEq, Repr

/-- A task that `initiate_protocol` makes. -/
def HandleDeath.new (recp : Nat) : HandleDeath := ⟨recp, false, false, none, false⟩

inductive Call where
  | initiate (task : Nat)
  | bindUnregisteringSelf (task : Nat)
  | restartComplete (task : Nat)
  | notify (task : Nat)
  deriving DecidableEq, Repr

/-- `MonitorAgent`, with all the tasks it has started. -/
structure MonitorAgent where
  handlerTasks : Nat → Option Nat
  tasks : List HandleDeath
  calls : List Call

namespace MonitorAgent

def new : MonitorAgent := ⟨fun _ => none, [], []⟩

/-- A task changes. -/
def withTask (i : Nat) (f : HandleDeath → HandleDeath) (m : MonitorAgent) : MonitorAgent :=
  { m with tasks := m.tasks.modify i f }

def callNext (call : Call) (m : MonitorAgent) : MonitorAgent :=
  { m with calls := m.calls ++ [call] }

/-- `finalize`. -/
def finalize (i : Nat) (outcome : Outcome) (m : MonitorAgent) : MonitorAgent :=
  match m.tasks[i]? with
  | some task =>
    if task.result.isSome then m
    else (m.withTask i fun task => { task with result := some outcome }).callNext (.notify i)
  | none => m

/-- `_register_task`. -/
def registerTask (agentId : Nat) (task : Nat) (m : MonitorAgent) : MonitorAgent :=
  if (m.handlerTasks agentId).isSome then m
  else { m with handlerTasks := Function.update m.handlerTasks agentId (some task) }

/-- `_unregister_task`. -/
def unregisterTask (agentId : Nat) (m : MonitorAgent) : MonitorAgent :=
  { m with handlerTasks := Function.update m.handlerTasks agentId none }

/-- `initiate_protocol` of a `HandleDeath`. -/
def initiateProtocol (recp : Nat) (m : MonitorAgent) : MonitorAgent :=
  { m with tasks := m.tasks ++ [HandleDeath.new recp] : MonitorAgent }.callNext
    (.initiate m.tasks.length)

/-- `handle_agent_death`, with the task whose end it returns. -/
def handleAgentDeath (recp : Nat) (m : MonitorAgent) : MonitorAgent × Nat :=
  match m.handlerTasks recp with
  | some task => (m, task)
  | none => ((m.initiateProtocol recp).registerTask recp m.tasks.length, m.tasks.length)

/-- `restart_complete`. -/
def restartComplete (recp : Nat) (m : MonitorAgent) : MonitorAgent :=
  match m.handlerTasks recp with
  | some task => m.callNext (.restartComplete task)
  | none => m

/-- `restart_handeled`, which terminates the task. -/
def restartHandeled (agentId : Nat) (m : MonitorAgent) : MonitorAgent :=
  match m.handlerTasks agentId with
  | some task => m.finalize task .completed
  | none => m

/-- An `IProblem`. -/
inductive Problem where
  | handleDeath (task : Nat)
  | alreadySolvedDeath (solution : Nat)
  deriving DecidableEq

/-- `handling_death_requested`. It fails with `FindPartnerError` where there is no partner. -/
def handlingDeathRequested (agentId instanceId : Nat) (partner : Option Nat) (m : MonitorAgent) :
    MonitorAgent × Option Problem :=
  match m.handlerTasks agentId with
  | some task => (m, some (.handleDeath task))
  | none =>
    match partner with
    | none => (m, none)
    | some partnerInstanceId =>
      if partnerInstanceId = instanceId then
        ((m.initiateProtocol agentId).registerTask agentId m.tasks.length,
          some (.handleDeath m.tasks.length))
      else (m, some (.alreadySolvedDeath agentId))

/-- The job that initiates a task, which is cancelled when the task ends before. -/
def initiate (i : Nat) (m : MonitorAgent) : MonitorAgent :=
  match m.tasks[i]? with
  | some task =>
    if task.result.isSome then m
    else (m.withTask i fun task => { task with initiated := true }).callNext
      (.bindUnregisteringSelf i)
  | none => m

/-- `_bind_unregistering_self`. The end of a task that has ended is notified at once. -/
def bindUnregisteringSelf (i : Nat) (m : MonitorAgent) : MonitorAgent :=
  match m.tasks[i]? with
  | some task =>
    match task.result with
    | none => m.withTask i fun task => { task with unregistering := true }
    | some .completed => m.unregisterTask task.recp
    | some .error => m
  | none => m

/-- The notification of the end of a task. -/
def notify (i : Nat) (m : MonitorAgent) : MonitorAgent :=
  match m.tasks[i]? with
  | some task =>
    let m := m.withTask i fun task => { task with notified := true }
    if task.unregistering ∧ task.result = some .completed then m.unregisterTask task.recp else m
  | none => m

/-- What was queued is called. -/
def call (c : Call) (m : MonitorAgent) : MonitorAgent :=
  match c with
  | .initiate i => m.initiate i
  | .bindUnregisteringSelf i => m.bindUnregisteringSelf i
  | .restartComplete _ => m
  | .notify i => m.notify i

end MonitorAgent

/-! ## Runs -/

/-- An agent is found dead, another monitor asks for it to be handled, reports a restart or that
it has handled the death, the first call that is queued is made, or a task ends. -/
inductive Event where
  | handleAgentDeath (recp : Nat)
  | handlingDeathRequested (agentId instanceId : Nat) (partner : Option Nat)
  | restartComplete (recp : Nat)
  | restartHandeled (agentId : Nat)
  | next
  | finish (task : Nat) (outcome : Outcome)
  deriving DecidableEq, Repr

/-- One event. -/
def step (m : MonitorAgent) : Event → Option MonitorAgent
  | .handleAgentDeath recp => some (m.handleAgentDeath recp).1
  | .handlingDeathRequested agentId instanceId partner =>
    some (m.handlingDeathRequested agentId instanceId partner).1
  | .restartComplete recp => some (m.restartComplete recp)
  | .restartHandeled agentId => some (m.restartHandeled agentId)
  | .next =>
    match m.calls with
    | [] => none
    | c :: calls => some ({ m with calls := calls }.call c)
  | .finish i outcome => do
    let task ← m.tasks[i]?
    if task.initiated then some (m.finalize i outcome) else none

end Feat.Agents.Monitor.Deaths
