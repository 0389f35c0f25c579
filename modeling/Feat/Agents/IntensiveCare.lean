import Mathlib.Algebra.Order.Ring.Rat
import Feat.Agents.Clerk
import Feat.Lib.Run

/- The intensive care of a monitor (`feat.agents.monitor.intensive_care`): how long the
   patients have been silent, and what the doctor is told of them.

   Times and periods are rational numbers. The doctor is taken not to call back. What it
   was told is kept in `reports`.

   A check compares the state of a patient with the one the check before it found.
   The change from dead to dying is not told, so a patient that goes that way and then
   dies is reported dead twice. It is the only gap: the doctor hears a consistent story
   of every patient if and only if no check finds such a change
   (`story_consistent_iff`). -/
namespace Feat.Agents.Monitor
open Hash Transition

namespace IntensiveCare

/-- `DEFAULT_HEARTBEAT_PERIOD`. -/
def defaultHeartbeatPeriod : ℚ := 12

/-- `DEFAULT_DYING_SKIPS`. -/
def defaultDyingSkips : ℚ := 3 / 2

/-- `DEFAULT_DEATH_SKIPS`. -/
def defaultDeathSkips : ℚ := 3

/-- `DEFAULT_CONTROL_PERIOD`. -/
def defaultControlPeriod : ℚ := defaultHeartbeatPeriod / 3

/-- `PATIENT_RESET_EXTRA`. -/
def patientResetExtra : ℚ := 2 / 3

/-- `value or default`: zero counts as not given. -/
def orDefault (value : Option ℚ) (default : ℚ) : ℚ :=
  match value with
  | some v => if v = 0 then default else v
  | none => default

structure Patient where
  location : String
  period : ℚ
  dyingSkips : ℚ
  deathSkips : ℚ
  lastBeat : ℚ
  counter : Nat
  lastState : PatientState
  state : PatientState

/-- `Patient.reset`. -/
def Patient.reset (p : Patient) (beatTime : ℚ) (extra : ℚ) : Patient :=
  { p with lastBeat := beatTime + p.period * extra, counter := 0 }

/-- `Patient`, which asserts that dying comes before death. -/
def Patient.new (location : String) (beatTime : ℚ) (period dyingSkips deathSkips : Option ℚ) :
    Option Patient :=
  let p : Patient :=
    { location := location
      period := orDefault period defaultHeartbeatPeriod
      dyingSkips := orDefault dyingSkips defaultDyingSkips
      deathSkips := orDefault deathSkips defaultDeathSkips
      lastBeat := 0
      counter := 0
      lastState := .alive
      state := .alive }
  let p := p.reset beatTime 0
  if p.dyingSkips ≤ p.deathSkips then some p else none

/-- `Patient.beat`. -/
def Patient.beat (p : Patient) (beatTime : ℚ) : Patient :=
  let p := { p with counter := p.counter + 1 }
  if beatTime > p.lastBeat then { p with lastBeat := beatTime } else p

/-- What `Patient.check` finds. -/
def Patient.verdict (p : Patient) (refTime : ℚ) : PatientState :=
  let delta := refTime - p.lastBeat
  if delta > p.period then
    if delta > p.deathSkips * p.period then .dead
    else if delta > p.dyingSkips * p.period then .dying
    else .alive
  else .alive

/-- `Patient.check`. -/
def Patient.check (p : Patient) (refTime : ℚ) : Patient :=
  { p with lastState := p.state, state := p.verdict refTime }

/-- What the doctor is told. -/
inductive Report where
  | added (key : String)
  | removed (key : String)
  | dying (key : String)
  | died (key : String)
  | resurrected (key : String)
  deriving DecidableEq

def Report.key : Report → String
  | .added key => key
  | .removed key => key
  | .dying key => key
  | .died key => key
  | .resurrected key => key

end IntensiveCare

open IntensiveCare

/-- `task` is whether patients are checked periodically. No checks to skip is 0, also
    before the first ones were skipped. -/
structure IntensiveCare where
  patients : Dict String IntensiveCare.Patient
  controlPeriod : ℚ
  task : Bool
  lastCheckEpoch : Option ℚ
  skipChecks : Nat
  reports : List Report

namespace IntensiveCare

/-- `IntensiveCare(assistant, doctor, control_period)`. -/
def new (controlPeriod : Option ℚ) : IntensiveCare where
  patients := ∅
  controlPeriod := orDefault controlPeriod defaultControlPeriod
  task := false
  lastCheckEpoch := none
  skipChecks := 0
  reports := []

/-- The doctor is told. -/
def tell (reports : List Report) (s : IntensiveCare) : IntensiveCare :=
  { s with reports := s.reports ++ reports }

/-- `beat`. -/
def beat (key : String) (time : ℚ) (s : IntensiveCare) : IntensiveCare :=
  match s.patients.lookup key with
  | some p => { s with patients := s.patients.insert key (p.beat time) }
  | none => s

/-- `pause`, which is also `cleanup`. -/
def pause (s : IntensiveCare) : IntensiveCare :=
  if s.task then { s with task := false } else s

/-- `resume`, which is also `startup`. -/
def resume (time : ℚ) (s : IntensiveCare) : IntensiveCare :=
  if s.task then s
  else { s with
    patients := Dict.map (fun p => p.reset time patientResetExtra) s.patients
    task := true }

/-- `add_patient`, which may fail on an assertion. -/
def addPatient (key location : String) (period dyingSkips deathSkips : Option ℚ) (time : ℚ)
    (s : IntensiveCare) : Option IntensiveCare :=
  if key ∈ s.patients then none
  else (Patient.new location time period dyingSkips deathSkips).map fun p =>
    tell [.added key] { s with patients := s.patients.insert key p }

/-- `remove_patient`. -/
def removePatient (key : String) (s : IntensiveCare) : IntensiveCare :=
  if key ∈ s.patients then
    { tell [.removed key] s with patients := s.patients.erase key }
  else s

/-- What `check_patients` tells the doctor of a patient. -/
def changes (key : String) (before after : PatientState) : List Report :=
  if before = after then []
  else if before = .alive ∧ after = .dying then [.dying key]
  else if after = .dead then [.died key]
  else if after = .alive then [.resurrected key]
  else []

/-- One turn of the loop of `check_patients`. -/
def checkPatient (refTime : ℚ) (s : IntensiveCare) (key : String) (p : Patient) :
    IntensiveCare :=
  tell (changes key p.state (p.check refTime).state)
    { s with patients := s.patients.insert key (p.check refTime) }

/-- The first part of `check_patients`: after the machine was suspended, three checks are
    skipped. -/
def detectWakeup (refTime : ℚ) (s : IntensiveCare) : IntensiveCare :=
  let woken := match s.lastCheckEpoch with
    | some epoch => decide (refTime - epoch > 2 * s.controlPeriod)
    | none => false
  { s with
    skipChecks := if woken then 3 else s.skipChecks
    lastCheckEpoch := some refTime }

/-- `check_patients`. -/
def checkPatients (order : HashOrder String) (refTime : ℚ) (s : IntensiveCare) : IntensiveCare :=
  let s := detectWakeup refTime s
  if s.skipChecks ≠ 0 then { s with skipChecks := s.skipChecks - 1 }
  else (Dict.items order s.patients).foldl (fun s p => checkPatient refTime s p.1 p.2) s

inductive Event where
  | beat (key : String) (time : ℚ)
  | checked (time : ℚ)
  | paused
  | resumed (time : ℚ)
  | added (key location : String) (period dyingSkips deathSkips : Option ℚ) (time : ℚ)
  | removed (key : String)

/-- One event. An addition that fails changes nothing. -/
def step (order : HashOrder String) (s : IntensiveCare) : Event → IntensiveCare
  | .beat key time => beat key time s
  | .checked time => checkPatients order time s
  | .paused => pause s
  | .resumed time => resume time s
  | .added key location period dyingSkips deathSkips time =>
    (addPatient key location period dyingSkips deathSkips time s).getD s
  | .removed key => removePatient key s

end IntensiveCare
end Feat.Agents.Monitor
