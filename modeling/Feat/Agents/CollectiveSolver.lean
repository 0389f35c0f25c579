import Feat.Lib.Run
import Feat.Agencies.Manager

/- Brothers that decide which of them solves a problem (`CollectiveSolver`,
   `SolveProblemManager` of `feat.agents.base.problem`).

   Each agent asks the brother before it in its list, with a contract, to solve the
   problem, and solves it itself when it is the first. The contract is the one of
   `AgencyManager`; the agent's side announces when it is initiated and grants the first
   bid when the announce period is closed. A contract that ends without a bid fails with
   its recipient, which is then removed from the list.

   Addresses are compared by value. Brothers that are not reachable send nothing. The
   problem's own methods do not fail, and the timeout of `initiate` does not fire before
   the job that calls it, which is due at once. `expire` is the timeout of the task. -/
namespace Feat.Agents.CollectiveSolver
open Hash Feat.Agencies Feat.Agencies.Contracts

variable {Key : Type} [DecidableEq Key] (order : HashOrder Key)

/-! ## The contract -/

/-- What the notifier of a contract fires with: the reports, or a failure. Of a failure counts
whether its argument is a recipient. -/
inductive Outcome (Key : Type) where
  | completed
  | failed (recipient : Option Key)
  | broken
  deriving DecidableEq

/-- What `SolveProblemManager` does in its callbacks. -/
def agentSide (callback : ManagerCallback) (m : AgencyManager Key) : AgencyManager Key :=
  match callback with
  | .initiate => m.announce
  | .closed =>
    -- there is a bid whenever `closed` is called
    match m.withState order [.bid] with
    | [] => m
    | bid :: _ => m.grant order [bid]
  | _ => m

/-- What its callbacks return, wrapped in `ProtocolFailed`: `expired` returns the recipients of the
contract, the others `None`. -/
def returned (resolver : Key) : ManagerCallback → Option Key
  | .expired => some resolver
  | _ => none

/-- The callback that a job calls when it is started. -/
def calledBack (m : AgencyManager Key) (job : AgencyManager.ManagerJob) : Option ManagerCallback :=
  match job.method with
  | .agent callback =>
    if ∀ state ∈ job.ensureState, m.medium.state = state then some callback else none
  | _ => none

inductive ContractEvent where
  | message (msg : ToManager)
  | fire
  | start (job : AgencyManager.ManagerJob)
  | finish (job : AgencyManager.ManagerJob)
  | completed

/-- One step of a contract. The handler `bid()` returns at once, so the check after it follows. -/
def contractStep (resolver : Key) (m : AgencyManager Key) :
    ContractEvent → Option (AgencyManager Key)
  | .message .bid =>
    let m' := m.onMessage order resolver .bid
    if m'.bidding > m.bidding then m'.step order .bidHandled else some m'
  | .message msg => m.step order (.message resolver msg)
  | .fire => if m.medium.state = .initiated then none else m.step order .fire
  | .start job =>
    (m.step order (.start job)).map fun m' =>
      match calledBack m job with
      | some callback => agentSide order callback m'
      | none => m'
  | .finish job => m.step order (.finish job false)
  | .completed => m.step order .completedHandled

/-- What a contract ends with when it is finalized by an event. -/
def outcome (resolver : Key) : ContractEvent → Outcome Key
  | .completed => .completed
  | .finish job =>
    match job.method with
    | .agent callback => .failed (returned resolver callback)
    | _ => .broken
  | _ => .broken

/-! ## The solver -/

/-- Where a solver is: `asking` a brother with a contract, whose result is known when it is
finalized, or done in one of several ways. -/
inductive Phase (Key : Type) [DecidableEq Key] where
  | waiting
  | asking (resolver : Key) (contract : AgencyManager Key) (result : Option (Outcome Key))
  | solvedLocally
  | answered
  | failed
  | expired

/-- `CollectiveSolver` of one agent. -/
structure Solver (Key : Type) [DecidableEq Key] where
  brothers : List Key
  phase : Phase Key

/-- `_iterate`. -/
def iterate (own : Key) (brothers : List Key) : Solver Key where
  brothers := brothers
  phase :=
    if own ∈ brothers then
      match brothers.idxOf own with
      | 0 => .solvedLocally
      | i + 1 =>
        match brothers[i]? with
        | some resolver => .asking resolver (AgencyManager.start (some 1)) none
        | none => .failed
    else .failed

/-- The list of `_prepare_retry`. A recipient that is not in the list is an error that is logged. -/
def newList (brothers : List Key) : Outcome Key → List Key
  | .failed (some recipient) => brothers.erase recipient
  | _ => brothers

inductive Event where
  | initiate
  | contract (e : ContractEvent)
  | finished
  | expire

/-- A message of a brother that is not reachable. -/
def Unsent (reachable : Key → Bool) (resolver : Key) (e : ContractEvent) : Prop :=
  reachable resolver = false ∧ ∃ msg, e = .message msg

instance (reachable : Key → Bool) (resolver : Key) : ∀ e, Decidable (Unsent reachable resolver e)
  | .message msg => decidable_of_iff (reachable resolver = false) ⟨fun h => ⟨h, msg, rfl⟩, And.left⟩
  | .fire | .start _ | .finish _ | .completed => .isFalse fun ⟨_, _, h⟩ => nomatch h

/-- The result of a contract after an event. -/
def resulting (resolver : Key) (m m' : AgencyManager Key) (e : ContractEvent)
    (result : Option (Outcome Key)) : Option (Outcome Key) :=
  if m.medium.finalized = false ∧ m'.medium.finalized = true then some (outcome resolver e)
  else result

variable (reachable : Key → Bool)

/-- One step of the solver of an agent. -/
def Solver.step (own : Key) (s : Solver Key) : Event → Option (Solver Key)
  | .initiate =>
    match s.phase with
    | .waiting => some (iterate own s.brothers)
    | _ => none
  | .contract e =>
    match s.phase with
    | .asking resolver m result =>
      if Unsent reachable resolver e then none
      else
        (contractStep order resolver m e).map fun m' =>
          { s with phase := .asking resolver m' (resulting resolver m m' e result) }
    | _ => none
  | .finished =>
    match s.phase with
    | .asking _ _ (some .completed) => some { s with phase := .answered }
    | .asking _ _ (some result) => some (iterate own (newList s.brothers result))
    | _ => none
  | .expire =>
    match s.phase with
    | .asking _ _ _ => some { s with phase := .expired }
    | _ => none

/-- The solvers of all agents. -/
abbrev System (Key : Type) [DecidableEq Key] : Type := Key → Solver Key

/-- All agents have the same list. -/
def System.start (brothers : List Key) : System Key := fun _ => ⟨brothers, .waiting⟩

/-- One agent takes a step. -/
def System.step (s : System Key) (e : Key × Event) : Option (System Key) :=
  ((s e.1).step order reachable e.1 e.2).map (Function.update s e.1)

end Feat.Agents.CollectiveSolver
