import Feat.Agencies.Manager

/- A contractor (`AgencyContractor` of `feat.agencies.contracts`). All it decides on is the
   state of its medium; what bids, grants and reports carry is left out. The agent's side
   may make its calls at any moment. -/
namespace Feat.Agencies.Contracts

/-- What a contractor is sent. -/
inductive FromManager where
  | announcement
  | of (msg : ToContractor)
  deriving DecidableEq

/-- The agent's side of a contractor. -/
inductive ContractorCallback where
  | initiate
  | announced
  | announceExpired
  | bidExpired
  | granted
  | rejected
  | cancelled
  | aborted
  | acknowledged
  deriving DecidableEq

/-- A contractor is its medium; it has no methods of its own that are called later. -/
abbrev AgencyContractor : Type :=
  Medium ContractState ContractorCallback Empty ToManager FromManager

namespace AgencyContractor

/-- A contractor after `initiate`. -/
def initiated : AgencyContractor :=
  let m : AgencyContractor := ⟨.initiated, none, [], false, [.entered .initiated]⟩
  m.callAgentSide (.agent .initiate) (some .initiated) false

/-! ## Calls of the agent's side -/

/-- `bid`. -/
def bid (m : AgencyContractor) : AgencyContractor :=
  if m.state = .announced then
    ((m.setState .bid).record [.sent .bid]).setTimeout (some .expired)
      (.runAndTerminate .bidExpired)
  else m

/-- `handover`: the bid of a nested contractor goes to the manager. -/
def handover (m : AgencyContractor) : AgencyContractor :=
  if m.state = .announced then ((m.setState .delegated).record [.sent .bid]).finalize else m

/-- `refuse`. -/
def refuse (m : AgencyContractor) : AgencyContractor :=
  if m.state = .announced then ((m.setState .refused).record [.sent .refusal]).finalize else m

/-- `defect`. -/
def defect (m : AgencyContractor) : AgencyContractor :=
  if m.state = .granted then ((m.setState .defected).record [.sent .cancellation]).finalize else m

/-- `complete`. -/
def complete (m : AgencyContractor) : AgencyContractor :=
  if m.state = .granted then
    ((m.setState .completed).record [.sent .finalReport]).setTimeout (some .aborted)
      (.runAndTerminate .aborted)
  else m

/-! ## Messages -/

/-- `_on_announce`. -/
def onAnnounce (m : AgencyContractor) : AgencyContractor :=
  (m.setTimeout (some .closed) (.runAndTerminate .announceExpired)).callAgentSide
    (.agent .announced) (some .announced) false

/-- `_on_grant`. -/
def onGrant (m : AgencyContractor) : AgencyContractor :=
  (m.setTimeout (some .expired) (.runAndTerminate .cancelled)).callAgentSide
    (.agent .granted) (some .granted) false

/-- `_on_ack`: `finalize` follows when `acknowledged()` is done. -/
def onAck (m : AgencyContractor) : AgencyContractor :=
  m.callAgentSide (.agent .acknowledged) (some .acknowledged) true

/-- `_on_reject`. -/
def onReject (m : AgencyContractor) : AgencyContractor :=
  m.runAndTerminate .rejected (some .rejected)

/-- `_on_cancel_in_granted`. -/
def onCancelInGranted (m : AgencyContractor) : AgencyContractor :=
  m.runAndTerminate .cancelled (some .cancelled)

/-- `_on_cancel_in_completed`. -/
def onCancelInCompleted (m : AgencyContractor) : AgencyContractor :=
  m.runAndTerminate .aborted (some .aborted)

/-- The mapping of `on_message`: the state after a message, and its handler. -/
def handler : FromManager → ContractState →
    Option (ContractState × (AgencyContractor → AgencyContractor))
  | .announcement, .initiated => some (.announced, onAnnounce)
  | .of .rejection, .bid => some (.rejected, onReject)
  | .of .grant, .bid => some (.granted, onGrant)
  | .of .cancellation, .granted => some (.cancelled, onCancelInGranted)
  | .of .cancellation, .completed => some (.aborted, onCancelInCompleted)
  | .of .acknowledgement, .completed => some (.acknowledged, onAck)
  | _, _ => none

/-- `on_message`. -/
def onMessage (msg : FromManager) (m : AgencyContractor) : AgencyContractor :=
  let m := m.record [.received msg]
  match handler msg m.state with
  | some (after, handle) => handle (m.setState after)
  | none => m

abbrev ContractorJob : Type := Job ContractState ContractorCallback Empty

inductive Event where
  | bid
  | handover
  | refuse
  | defect
  | complete
  | message (msg : FromManager)
  | fire
  | start (job : ContractorJob)
  | finish (job : ContractorJob) (failed : Bool)

def step (m : AgencyContractor) : Event → Option AgencyContractor
  | .bid => some m.bid
  | .handover => some m.handover
  | .refuse => some m.refuse
  | .defect => some m.defect
  | .complete => some m.complete
  | .message msg => some (m.onMessage msg)
  | .fire => m.fire
  | .start job => m.start (fun method => nomatch method) job
  | .finish job failed => m.finish .wtf job failed

end AgencyContractor
end Feat.Agencies.Contracts
