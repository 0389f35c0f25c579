import Mathlib.Data.Finset.Basic
import Feat.Lib.Hash

/- The clerk of a monitor (`feat.agents.monitor.clerk`): what it knows of the patients
   of each location, when it puts a location into quarantine, when it takes itself to
   be isolated, and when it calls the coroner.

   Locations are objects. A location without patients is dropped from the dictionary
   of the clerk, and a call scheduled for it may still fire on the object, also when
   another location has been made under its name. So objects live in a heap and are
   handed around by reference.

   `_location_state_changed` is reached again from the loops it starts itself. The
   functions below take it as a parameter `changed`, and `locationStateChanged` ties
   the knot to a bounded depth. The coroner is taken not to call the clerk back. What
   was reported to the coroner is kept in `history` for the record. -/
namespace Feat.Agents.Monitor
open Hash

inductive PatientState where
  | alive
  | dying
  | dead
  deriving DecidableEq

inductive LocationState where
  | normal
  | isolated
  | recovering
  deriving DecidableEq

inductive MonitorState where
  | normal
  | isolated
  | recovering
  | disconnected
  deriving DecidableEq

structure Patient where
  location : String
  period : Nat
  state : PatientState
  deriving DecidableEq

abbrev Ref := Nat

structure Location where
  name : String
  state : LocationState
  paused : Bool
  patients : Dict String Patient
  dead : Finset String

/-- `Location(clerk, name)`. -/
def Location.new (name : String) : Location := ⟨name, .normal, false, ∅, ∅⟩

/-- What the clerk asks its patron to call later. -/
inductive Call where
  | liftLocation (location : Ref)
  | liftIsolation
  deriving DecidableEq

/-- What happened to a patient, as the coroner and the doctor heard of it. -/
inductive Notice where
  | added (key : String)
  | resurrected (key : String)
  | dead (key : String) (patient : PatientState) (clerk : MonitorState)
  deriving DecidableEq

/-- What a clerk is made with, and the order in which dictionaries are walked. -/
structure Config where
  location : String
  enableQuarantine : Bool
  hostQuarantineLength : Nat
  selfQuarantineLength : Nat
  order : HashOrder String

structure Clerk where
  heap : Ref → Location
  created : Nat
  locations : Dict String Ref
  patients : Dict String Ref
  locationCalls : Dict String Nat
  isolatedCall : Option Nat
  state : MonitorState
  calls : Dict Nat (Nat × Call)
  issued : Nat
  history : List Notice
  exhausted : Bool

def Clerk.new : Clerk where
  heap := fun _ => Location.new ""
  created := 0
  locations := ∅
  patients := ∅
  locationCalls := ∅
  isolatedCall := none
  state := .normal
  calls := ∅
  issued := 0
  history := []
  exhausted := false

/-- The clerk after an assignment to fields of a location. -/
def Clerk.update (s : Clerk) (r : Ref) (f : Location → Location) : Clerk :=
  { s with heap := Function.update s.heap r (f (s.heap r)) }

/-! ## The patron -/

/-- `call_later`. -/
def callLater (delay : Nat) (call : Call) (s : Clerk) : Nat × Clerk :=
  (s.issued, { s with calls := s.calls.insert s.issued (delay, call), issued := s.issued + 1 })

/-- `cancel_delayed_call`. -/
def cancelDelayedCall (id : Nat) (s : Clerk) : Clerk := { s with calls := s.calls.erase id }

/-! ## Calls of the clerk -/

/-- `_loc_cancel_call`. -/
def locCancelCall (r : Ref) (s : Clerk) : Clerk :=
  let name := (s.heap r).name
  let s := match s.locationCalls.lookup name with
    | some id => cancelDelayedCall id s
    | none => s
  { s with locationCalls := s.locationCalls.erase name }

/-- `_loc_schedule_call`. -/
def locScheduleCall (delay : Nat) (r : Ref) (s : Clerk) : Clerk :=
  let s := locCancelCall r s
  let (id, s) := callLater delay (.liftLocation r) s
  { s with locationCalls := s.locationCalls.insert (s.heap r).name id }

/-- `_iso_cancel_call`. -/
def isoCancelCall (s : Clerk) : Clerk :=
  match s.isolatedCall with
  | some id => { cancelDelayedCall id s with isolatedCall := none }
  | none => s

/-- `_iso_schedule_call`. -/
def isoScheduleCall (delay : Nat) (s : Clerk) : Clerk :=
  let s := isoCancelCall s
  let (id, s) := callLater delay .liftIsolation s
  { s with isolatedCall := some id }

/-! ## Locations -/

/-- `iter_patients`. -/
def Location.iterPatients (o : HashOrder String) (loc : Location) (state : PatientState) :
    List (String × Patient) :=
  (Dict.items o loc.patients).filter (fun p => p.2.state = state)

/-- `count_patients`. -/
def Location.countPatients (o : HashOrder String) (loc : Location) (state : PatientState) : Nat :=
  (loc.iterPatients o state).length

variable (c : Config)

/-- `iter_locations`. -/
def iterLocations (s : Clerk) : List Ref := Dict.values c.order s.locations

/-- `_patient_dead`: the coroner is called. -/
def patientDead (key : String) (patient : Patient) (s : Clerk) : Clerk :=
  { s with history := s.history ++ [.dead key patient.state s.state] }

/-- `_notify_death`. -/
def notifyDeath (r : Ref) (key : String) (patient : Patient) (s : Clerk) : Clerk :=
  if (s.heap r).paused then s
  else if key ∈ (s.heap r).dead then s
  else patientDead key patient (s.update r (fun l => { l with dead := insert key l.dead }))

/-- `_bring_out_your_dead`. -/
def bringOutYourDead (r : Ref) (s : Clerk) : Clerk :=
  ((s.heap r).iterPatients c.order .dead).foldl (fun s p => notifyDeath r p.1 p.2 s) s

/-- What `_check_isolated` looks for: another location with a patient alive. -/
def Lively (loc : Location) : Prop :=
  loc.state ≠ .isolated ∧ loc.name ≠ c.location ∧ loc.countPatients c.order .alive > 0

instance (loc : Location) : Decidable (Lively c loc) :=
  inferInstanceAs (Decidable (_ ∧ _ ∧ _))

variable (changed : Ref → Clerk → Clerk)

/-- `_set_state`. -/
def setState (r : Ref) (state : LocationState) (s : Clerk) : Clerk :=
  changed r (s.update r (fun l => { l with state := state }))

/-- `_pause`. -/
def pause (r : Ref) (s : Clerk) : Clerk :=
  let s := s.update r (fun l => { l with paused := true })
  if (s.heap r).state = .recovering then setState changed r .normal s else s

/-- `_loc_pause_all`. -/
def locPauseAll (s : Clerk) : Clerk :=
  (iterLocations c s).foldl (fun s r => pause changed r (locCancelCall r s)) s

/-- `_check_isolated`. -/
def checkIsolated (s : Clerk) : Bool × Clerk :=
  if s.state = .isolated ∨ s.state = .recovering then (true, s)
  else if ∃ r ∈ iterLocations c s, Lively c (s.heap r) then (false, s)
  else
    let s := { s with state := .isolated }
    let s := isoScheduleCall c.selfQuarantineLength s
    (true, locPauseAll c changed s)

/-- `_start_quarantine`. -/
def startQuarantine (r : Ref) (s : Clerk) : Clerk :=
  if (s.heap r).state ≠ .isolated then setState changed r .isolated s else s

/-- `_loc_start_quarantine`. -/
def locStartQuarantine (r : Ref) (s : Clerk) : Clerk :=
  let (isolated, s) := checkIsolated c changed s
  if isolated then s else startQuarantine changed r (locCancelCall r s)

/-- `_need_quarantine`. -/
def needQuarantine (r : Ref) (s : Clerk) : Clerk :=
  let s := locStartQuarantine c changed r s
  if s.state ≠ .isolated then locScheduleCall c.hostQuarantineLength r s else s

/-- `_start_recovery`. -/
def startRecovery (r : Ref) (s : Clerk) : Nat × Clerk :=
  if (s.heap r).countPatients c.order .dead > 0 ∨ (s.heap r).countPatients c.order .dying > 0 then
    let s := if (s.heap r).state ≠ .recovering then setState changed r .recovering s else s
    let periods := ((Dict.values c.order (s.heap r).patients).filter
      (fun p => p.state ≠ .alive)).map Patient.period
    (periods.foldl max 0, s)
  else (0, s)

/-- `_location_recovering`, which is `_loc_start_recovery`. -/
def locationRecovering (r : Ref) (s : Clerk) : Clerk :=
  let (time, s) := startRecovery c changed r s
  locScheduleCall time r s

/-- `_resume`. -/
def resume (r : Ref) (s : Clerk) : Clerk :=
  let s := s.update r (fun l => { l with paused := false })
  if !c.enableQuarantine then bringOutYourDead c r s
  else match (s.heap r).state with
    | .isolated => needQuarantine c changed r s
    | .recovering => locationRecovering c changed r s
    | .normal => s

/-- `_loc_resume_all`. -/
def locResumeAll (s : Clerk) : Clerk :=
  (iterLocations c s).foldl (fun s r => resume c changed r s) s

/-- The body of `_location_state_changed`. -/
def stateChanged (r : Ref) (s : Clerk) : Clerk :=
  let s := if (s.heap r).state = .normal then locCancelCall r s else s
  match s.state with
  | .isolated =>
    if (s.heap r).state ≠ .isolated ∧ (s.heap r).name ≠ c.location then
      locResumeAll c changed (isoCancelCall { s with state := .normal })
    else s
  | .recovering =>
    if ∀ l ∈ iterLocations c s, (s.heap l).state = .normal then { s with state := .normal } else s
  | _ => s

/-- `_check_quarantine`. -/
def checkQuarantine (r : Ref) (s : Clerk) : Clerk :=
  if (s.heap r).countPatients c.order .dying > 0 then s
  else if ¬ (s.heap r).countPatients c.order .dead > 0 then s
  else if (s.heap r).state ≠ .isolated then
    let s := setState changed r .isolated s
    if (s.heap r).paused then s else needQuarantine c changed r s
  else s

/-- `_patient_died`. -/
def patientDied (r : Ref) (key : String) (patient : Patient) (s : Clerk) : Clerk :=
  if !c.enableQuarantine then notifyDeath r key patient s
  else if (s.heap r).state = .normal ∧ (s.heap r).countPatients c.order .alive > 0 then
    notifyDeath r key patient s
  else checkQuarantine c changed r s

/-- `_patient_resurrected`. -/
def patientResurrected (r : Ref) (key : String) (s : Clerk) : Clerk :=
  let s := s.update r (fun l => { l with dead := l.dead.erase key })
  if !c.enableQuarantine then s
  else
    let recovered := (s.heap r).countPatients c.order .dying = 0 ∧
      (s.heap r).countPatients c.order .dead = 0
    if (s.heap r).state = .recovering then
      if recovered then setState changed r .normal s else s
    else if recovered then setState changed r .normal s
    else
      let s := setState changed r .recovering s
      if (s.heap r).paused then s else locationRecovering c changed r s

/-- `_remove_patient`: whether no patient is left. -/
def removePatient (r : Ref) (key : String) (patient : Patient) (s : Clerk) : Bool × Clerk :=
  let s := s.update r fun l =>
    { l with patients := l.patients.erase key, dead := l.dead.erase key }
  let s := if c.enableQuarantine ∧ (s.heap r).state = .normal ∧ patient.state ≠ .dead then
      checkQuarantine c changed r s
    else s
  ((s.heap r).patients.keys.length = 0, s)

/-- `_quarantine_lifted`. -/
def quarantineLifted (r : Ref) (s : Clerk) : Clerk :=
  bringOutYourDead c r (setState changed r .normal s)

/-! ## The clerk -/

/-- `_location_state_changed`, to a depth of calls: every round brings one more
    recovering location back to normal. -/
def locationStateChanged : Nat → Ref → Clerk → Clerk
  | 0, _, s => { s with exhausted := true }
  | depth + 1, r, s => stateChanged c (locationStateChanged depth) r s

/-- `on_disconnected`. -/
def onDisconnected (s : Clerk) : Clerk :=
  if s.state ≠ .disconnected then
    locPauseAll c changed { isoCancelCall s with state := .disconnected }
  else s

/-- `on_reconnected`. -/
def onReconnected (s : Clerk) : Clerk :=
  if s.state = .disconnected then
    (checkIsolated c changed (locResumeAll c changed { s with state := .normal })).2
  else s

/-- `on_patient_added`. -/
def onPatientAdded (key : String) (patient : Patient) (s : Clerk) : Clerk :=
  let (r, s) := match s.locations.lookup patient.location with
    | some r => (r, s)
    | none =>
      (s.created, { s.update s.created (fun _ => .new patient.location) with
        created := s.created + 1
        locations := s.locations.insert patient.location s.created })
  let s := s.update r (fun l => { l with patients := l.patients.insert key patient })
  { s with patients := s.patients.insert key r }

/-- `on_patient_removed`. -/
def onPatientRemoved (key : String) (patient : Patient) (s : Clerk) : Clerk :=
  let s := { s with patients := s.patients.erase key }
  match s.locations.lookup patient.location with
  | some r =>
    let (empty, s) := removePatient c changed r key patient s
    if empty then { s with locations := s.locations.erase (s.heap r).name } else s
  | none => s

/-- `_iso_lift_quarantine`. -/
def isoLiftQuarantine (s : Clerk) : Clerk := locResumeAll c changed { s with state := .recovering }

/-! ## Events -/

/-- What the intensive care, the agent and its delayed calls report. `relapsed` is the
    one change of a patient that nobody reports, from dead back to dying. -/
inductive Event where
  | added (key location : String) (period : Nat)
  | removed (key : String)
  | dying (key : String)
  | died (key : String)
  | resurrected (key : String)
  | relapsed (key : String)
  | disconnected
  | reconnected
  | fired (id : Nat)
  deriving DecidableEq

/-- The patient of a key, and the location it is at. -/
def Clerk.patient (s : Clerk) (key : String) : Option (Ref × Patient) := do
  let r ← s.patients.lookup key
  let p ← (s.heap r).patients.lookup key
  return (r, p)

/-- The location after the state of a patient changed. -/
def Location.mark (key : String) (patient : Patient) (state : PatientState) (loc : Location) :
    Location :=
  { loc with patients := loc.patients.insert key { patient with state := state } }

/-- One event: the state of the patient is set first, then the doctor is told. -/
def step (s : Clerk) : Event → Option Clerk
  | .added key location period =>
    if key ∈ s.patients then none
    else some (onPatientAdded key ⟨location, period, .alive⟩
      { s with history := s.history ++ [.added key] })
  | .removed key => do
    let (_, p) ← s.patient key
    return onPatientRemoved c (locationStateChanged c (s.locations.keys.length + 1)) key p s
  | .dying key => do
    let (r, p) ← s.patient key
    if p.state = .alive then return s.update r (.mark key p .dying) else none
  | .died key => do
    let (r, p) ← s.patient key
    if p.state ≠ .dead then
      return patientDied c (locationStateChanged c (s.locations.keys.length + 1)) r key
        { p with state := .dead } (s.update r (.mark key p .dead))
    else none
  | .resurrected key => do
    let (r, p) ← s.patient key
    if p.state ≠ .alive then
      return patientResurrected c (locationStateChanged c (s.locations.keys.length + 1)) r key
        { s.update r (.mark key p .alive) with history := s.history ++ [.resurrected key] }
    else none
  | .relapsed key => do
    let (r, p) ← s.patient key
    if p.state = .dead then return s.update r (.mark key p .dying) else none
  | .disconnected =>
    some (onDisconnected c (locationStateChanged c (s.locations.keys.length + 1)) s)
  | .reconnected =>
    some (onReconnected c (locationStateChanged c (s.locations.keys.length + 1)) s)
  | .fired id => do
    let (_, call) ← s.calls.lookup id
    let s := { s with calls := s.calls.erase id }
    let changed := locationStateChanged c (s.locations.keys.length + 1)
    match call with
    | .liftLocation r => return quarantineLifted c changed r s
    | .liftIsolation => return isoLiftQuarantine c changed s

end Feat.Agents.Monitor
