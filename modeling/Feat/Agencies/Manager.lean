import Feat.Lib.Hash
import Feat.Agencies.Medium

/- The manager of a contract (`AgencyManager` of `feat.agencies.contracts`) with its
   record of each contractor that answered (`ManagerContractor`).

   An answer is known by the key of who is to be replied to. What bids, reports and
   cancellations carry is left out: no decision here reads it. The handlers `bid()` and
   `completed()` are called directly, not as jobs; `bidding` counts the first ones whose
   end is still to come, after which the announce period may be closed. The agent's side
   may make its calls at any moment, so also from inside any handler. -/
namespace Feat.Agencies.Contracts
open Hash

/-- Contract protocol state. -/
inductive ContractState where
  | initiated
  | announced
  | closed
  | bid
  | refused
  | delegated
  | rejected
  | granted
  | expired
  | completed
  | terminated
  | defected
  | cancelled
  | acknowledged
  | aborted
  | wtf
  deriving DecidableEq

/-- The state of a contractor from the point of view of the manager. -/
inductive ContractorState where
  | bid
  | refused
  | rejected
  | elected
  | granted
  | completed
  | cancelled
  | acknowledged
  deriving DecidableEq

/-- Messages of a manager to one contractor. -/
inductive ToContractor where
  | rejection
  | grant
  | cancellation
  | acknowledgement
  deriving DecidableEq

/-- Messages of contractors to the manager. -/
inductive ToManager where
  | bid
  | refusal
  | duplicate
  | finalReport
  | cancellation
  deriving DecidableEq

/-- What a manager sends: the announcement goes to all recipients. -/
inductive ManagerMessage (Key : Type) where
  | announcement
  | to (key : Key) (msg : ToContractor)
  deriving DecidableEq

/-- The agent's side of a manager. -/
inductive ManagerCallback where
  | initiate
  | bid
  | closed
  | expired
  | cancelled
  | aborted
  | completed
  deriving DecidableEq

/-- Methods of the manager that are called later. -/
inductive ManagerMethod where
  | finalize
  | onAnnounceExpire
  | onGrantExpire
  deriving DecidableEq

abbrev ManagerMedium (Key : Type) : Type :=
  Medium ContractState ManagerCallback ManagerMethod (ManagerMessage Key) (Key × ToManager)

structure AgencyManager (Key : Type) [DecidableEq Key] where
  medium : ManagerMedium Key
  contractors : Dict Key ContractorState
  expectedBids : Option Nat
  bidding : Nat
  completing : Bool

/-! ## Records of contractors -/

/-- `ManagerContractor.on_event` for a message to the contractor: the state after it,
    where the state before it is the right one. -/
def ContractorState.send : ToContractor → ContractorState → Option ContractorState
  | .rejection, .bid => some .rejected
  | .grant, .bid => some .granted
  | .cancellation, .granted => some .cancelled
  | .cancellation, .completed => some .cancelled
  | .acknowledgement, .completed => some .acknowledged
  | _, _ => none

namespace AgencyManager
variable {Key : Type} [DecidableEq Key] (order : HashOrder Key)

/-- `with_state`. -/
def withState (states : List ContractorState) (m : AgencyManager Key) : List Key :=
  ((Dict.items order m.contractors).filter (fun p => p.2 ∈ states)).map Prod.fst

/-- `on_event` of the contractor under a key, for a message that is sent to it. -/
def onEvent (msg : ToContractor) (m : AgencyManager Key) (key : Key) : AgencyManager Key :=
  match (m.contractors.lookup key).bind (·.send msg) with
  | some state =>
    { m with
      contractors := m.contractors.insert key state
      medium := m.medium.record [.sent (.to key msg)] }
  | none => m

/-- `on_event` for a `FinalReport`. -/
def onEventReport (m : AgencyManager Key) (key : Key) : AgencyManager Key :=
  match m.contractors.lookup key with
  | some .granted =>
    { m with contractors := m.contractors.insert key ContractorState.completed }
  | _ => m

/-! ## Closing the announce period -/

/-- `_close_announce_period`. -/
def closeAnnouncePeriod (m : ManagerMedium Key) : ManagerMedium Key :=
  let m := m.setTimeout (some .expired) (.runAndTerminate .expired)
  let m := m.setState .closed
  m.callAgentSide (.agent .closed) (some .closed) false

/-- `_goto_closed_or_expired`, given how many contractors have the state `bid`. -/
def gotoClosedOrExpired (bids : Nat) (m : ManagerMedium Key) : ManagerMedium Key :=
  if bids > 0 then closeAnnouncePeriod m
  else (m.setState .expired).runAndTerminate .expired (some .expired)

/-- The announce period is over as far as the number of answers goes: what
    `_check_if_should_goto_close` asks before it closes. -/
def Answered (m : AgencyManager Key) : Prop :=
  m.medium.state ≠ .terminated ∧
    ∃ n ∈ m.expectedBids, n ≠ 0 ∧ m.contractors.keys.length ≥ n

instance (m : AgencyManager Key) : Decidable m.Answered := inferInstanceAs (Decidable (_ ∧ _))

/-- `_check_if_should_goto_close`. -/
def checkIfShouldGotoClose (m : AgencyManager Key) : AgencyManager Key :=
  if m.Answered then
    let bids := (m.withState order [.bid]).length
    { m with medium := gotoClosedOrExpired bids m.medium.cancelTimeout }
  else m

/-! ## Calls of the agent's side -/

/-- A manager after `initiate`. -/
def start (expectedBids : Option Nat) : AgencyManager Key where
  medium :=
    let m : ManagerMedium Key := ⟨.initiated, none, [], false, [.entered .initiated]⟩
    let m := m.setTimeout (some .wtf) (.own .finalize)
    m.callAgentSide (.agent .initiate) (some .initiated) false
  contractors := ∅
  expectedBids := expectedBids
  bidding := 0
  completing := false

/-- `announce`. -/
def announce (m : AgencyManager Key) : AgencyManager Key :=
  if m.medium.state = .initiated then
    let medium := (m.medium.setState .announced).record [.sent .announcement]
    { m with medium := medium.setTimeout none (.own .onAnnounceExpire) }
  else m

/-- `reject`. -/
def reject (key : Key) (m : AgencyManager Key) : AgencyManager Key :=
  if m.medium.state ∈ [.announced, .granted, .closed] then m.onEvent .rejection key else m

/-- The grants of `grant`, up to a bid of nobody known. -/
def sendGrants (m : AgencyManager Key) : List Key → Bool × AgencyManager Key
  | [] => (true, m)
  | key :: keys =>
    if key ∈ m.contractors then sendGrants (m.onEvent .grant key) keys else (false, m)

/-- `_set_state` and `set_timeout` of `grant`. -/
def enterGranted (m : AgencyManager Key) : AgencyManager Key :=
  { m with medium :=
      (m.medium.setState .granted).setTimeout (some .aborted) (.own .onGrantExpire) }

/-- `grant`: the bids granted, in order. -/
def grant (keys : List Key) (m : AgencyManager Key) : AgencyManager Key :=
  if m.medium.state ∈ [.closed, .announced] then
    let (known, m) := m.enterGranted.sendGrants keys
    -- send the rejections to all the contractors we are not granting
    if known then (m.withState order [.bid]).foldl (onEvent .rejection) m else m
  else m

/-- `elect`. -/
def elect (key : Key) (m : AgencyManager Key) : AgencyManager Key :=
  if key ∈ m.contractors then { m with contractors := m.contractors.insert key .elected } else m

/-- `cancel`. Where there is nobody to cancel, `cancellation` is unbound and the call fails
    before the agent's side is told. -/
def cancel (m : AgencyManager Key) : AgencyManager Key :=
  if m.medium.state ∈ [.granted, .cancelled] then
    let m := { m with medium := m.medium.setState .cancelled }
    let toCancel := m.withState order [.granted, .completed]
    let m := toCancel.foldl (onEvent .cancellation) m
    if toCancel = [] then m
    else { m with medium := m.medium.runAndTerminate .cancelled (some .cancelled) }
  else m

/-- `terminate`. -/
def terminate (m : AgencyManager Key) : AgencyManager Key :=
  -- send the rejections to all the contractors
  let m := (m.withState order [.bid]).foldl (onEvent .rejection) m
  if m.medium.state ∈ [.expired, .cancelled, .aborted, .wtf] then m
  else { m with medium := (m.medium.setState .terminated).finalize }

/-! ## Messages -/

/-- `_on_bid`, up to the end of the handler. -/
def onBid (key : Key) (m : AgencyManager Key) : AgencyManager Key :=
  if key ∈ m.contractors then m
  else { m with
    contractors := m.contractors.insert key .bid
    medium := m.medium.record [.called .bid]
    bidding := m.bidding + 1 }

/-- `_on_refusal`. -/
def onRefusal (key : Key) (m : AgencyManager Key) : AgencyManager Key :=
  if key ∈ m.contractors then m
  else checkIfShouldGotoClose order { m with contractors := m.contractors.insert key .refused }

/-- `_on_duplicate`. -/
def onDuplicate (key : Key) (m : AgencyManager Key) : AgencyManager Key :=
  if key ∈ m.contractors then m else onRefusal order key m

/-- `_on_complete`: the acknowledgements, and the call of `completed()`. -/
def onComplete (m : AgencyManager Key) : AgencyManager Key :=
  if m.medium.state = .granted then
    let m := { m with medium := (m.medium.setState ContractState.completed).cancelTimeout }
    let m := (m.withState order [.completed]).foldl (onEvent .acknowledgement) m
    { m with medium := m.medium.record [.called .completed], completing := true }
  else m

/-- `_on_report`. -/
def onReport (key : Key) (m : AgencyManager Key) : AgencyManager Key :=
  if key ∈ m.contractors then
    let m := m.onEventReport key
    if (m.withState order [.granted]).length = 0 then onComplete order m else m
  else m

/-- `_on_cancel`. -/
def onCancel (key : Key) (m : AgencyManager Key) : AgencyManager Key :=
  if key ∈ m.contractors then cancel order m else m

/-- `on_message`: the state before and after, and the handler of each message. -/
def onMessage (key : Key) (msg : ToManager) (m : AgencyManager Key) : AgencyManager Key :=
  let m := { m with medium := m.medium.record [.received (key, msg)] }
  let inState (before after : ContractState) (handler : AgencyManager Key → AgencyManager Key) :=
    if m.medium.state = before then handler { m with medium := m.medium.setState after } else m
  match msg with
  | .bid => inState .announced .announced (onBid key)
  | .refusal => inState .announced .announced (onRefusal order key)
  | .duplicate => inState .announced .announced (onDuplicate order key)
  | .finalReport => inState .granted .granted (onReport order key)
  | .cancellation => inState .granted .cancelled (onCancel order key)

/-! ## Timeouts and jobs -/

/-- `finalize`, `_on_announce_expire` and `_on_grant_expire`, given how many contractors
    have the state `bid`. -/
def own (bids : Nat) : ManagerMethod → ManagerMedium Key → ManagerMedium Key
  | .finalize, m => m.finalize
  | .onAnnounceExpire, m => if m.state = .announced then gotoClosedOrExpired bids m else m
  | .onGrantExpire, m => (m.setState .aborted).runAndTerminate .aborted (some .aborted)

abbrev ManagerJob : Type := Job ContractState ManagerCallback ManagerMethod

inductive Event (Key : Type) where
  | announce
  | reject (key : Key)
  | grant (keys : List Key)
  | elect (key : Key)
  | cancel
  | terminate
  | message (key : Key) (msg : ToManager)
  | bidHandled
  | completedHandled
  | fire
  | start (job : ManagerJob)
  | finish (job : ManagerJob) (failed : Bool)

def step (m : AgencyManager Key) : Event Key → Option (AgencyManager Key)
  | .announce => some m.announce
  | .reject key => some (m.reject key)
  | .grant keys => some (m.grant order keys)
  | .elect key => some (m.elect key)
  | .cancel => some (m.cancel order)
  | .terminate => some (m.terminate order)
  | .message key msg => some (m.onMessage order key msg)
  | .bidHandled =>
    if m.bidding > 0 then some (checkIfShouldGotoClose order { m with bidding := m.bidding - 1 })
    else none
  | .completedHandled =>
    if m.completing then some { m with medium := m.medium.finalize, completing := false } else none
  | .fire => m.medium.fire.map fun medium => { m with medium := medium }
  | .start job =>
    (m.medium.start (own (m.withState order [.bid]).length) job).map fun medium =>
      { m with medium := medium }
  | .finish job failed =>
    (m.medium.finish .wtf job failed).map fun medium => { m with medium := medium }

end AgencyManager
end Feat.Agencies.Contracts
