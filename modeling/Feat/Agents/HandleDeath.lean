/- The handling of a dead agent (`HandleDeath` of `feat.agents.monitor.monitor_agent`), from
   `solve_localy` on.

   An attempt is a call of `_retry`. Its fiber is followed through what it waits for: the document
   that is saved, the answers to `died`, a local or global start, the notifications of the sender
   and the deletion of the descriptor. Attempts go on side by side where `_retry` is called
   again, and no fiber is cancelled when the task ends. A delayed call is known by its number; the
   handle of the last one is `timeoutCallId`, also when the call was made.

   `sender.notify` takes the notifications when it is called. The `ping` and the adoption of
   notifications of a dead monitor end what they end with the task and are one wait here. -/
namespace Feat.Agents.Monitor.Restart

/-- `IAgentFactory.restart_strategy`; `other` is a value that is none of these. -/
inductive RestartStrategy where
  | buryme
  | «local»
  | wherever
  | monitor
  | other
  deriving DecidableEq, Repr

/-- A notification for a partner, with the new address of the agent. -/
inductive Notification where
  | buried
  | restarted (newAddress : Nat)
  deriving DecidableEq, Repr

/-- The answer of a partner to `died`, or the failure of the request. -/
inductive Response where
  | responsabilityAccepted
  | other
  | failed
  deriving DecidableEq, Repr

/-- What follows the burial: nothing, `terminate`, `fail`, or `_checkup_partners` and
`_adopt_notifications` before `terminate`. -/
inductive Sequel where
  | nothing
  | terminate
  | fail
  | checkup
  deriving DecidableEq, Repr

/-- What the fiber of an attempt waits for. -/
inductive Attempt where
  | settingFlag
  | died (answers : Nat)
  | startingInShard
  | clearingHost
  | startingGlobally
  | fetching (newAddress : Nat)
  | restarted (newAddress : Nat)
  | buried (sequel : Sequel)
  | deleting (sequel : Sequel)
  | checkup
  | done
  | failed
  deriving DecidableEq, Repr

/-- An attempt is under way. -/
def Attempt.running : Attempt → Bool
  | .done | .failed => false
  | _ => true

/-- The errors that `_global_restart_failed` tells apart. -/
inductive Error where
  | protocolFailed
  | other
  deriving DecidableEq, Repr

/-- The end of the medium: `terminate`, or `fail` and an error. -/
inductive Outcome where
  | terminated
  | failed
  deriving DecidableEq, Repr

/-- The state of the task: the partners in the descriptor that is stored, the delayed calls that
are due, the fibers of the attempts and of the calls of `restart_complete`, and what happened.
`handled` is what `_death_handled` was first called with. `notified` are the notifications given
to the sender, `announced` the calls that gave them; `restarted` is set when an attempt is started
after one. -/
structure HandleDeath where
  strategy : RestartStrategy
  partners : List Nat
  attempt : Nat
  soTookResponsability : Bool
  timeoutCallId : Option Nat
  delayedCalls : List Nat
  calls : Nat
  attempts : List Attempt
  reports : List Nat
  handled : Option (Option Nat)
  outcome : Option Outcome
  notified : List (Nat × Notification)
  announced : List Notification
  deleted : Bool
  restarted : Bool
  deriving Repr

namespace HandleDeath

def new (strategy : RestartStrategy) (partners : List Nat) : HandleDeath :=
  ⟨strategy, partners, 0, false, none, [], 0, [], [], none, none, [], [], false, false⟩

/-- An attempt goes on. -/
def next (i : Nat) (a : Attempt) (t : HandleDeath) : HandleDeath :=
  { t with attempts := t.attempts.set i a }

/-- `terminate` and `fail` of the medium. -/
def finalize (outcome : Outcome) (t : HandleDeath) : HandleDeath :=
  if t.outcome.isSome then t else { t with outcome := some outcome }

/-- The notifications for all partners are given to the sender. -/
def notify (notification : Notification) (t : HandleDeath) : HandleDeath :=
  { t with
    notified := t.notified ++ t.partners.map fun partner => (partner, notification)
    announced := t.announced ++ [notification] }

/-- `_death_handled`. -/
def deathHandled (result : Option Nat) (t : HandleDeath) : HandleDeath :=
  if t.handled.isSome then t else { t with handled := some result }

/-- `_send_buried_notifications`, up to the sender. -/
def sendBuriedNotifications (i : Nat) (sequel : Sequel) (t : HandleDeath) : HandleDeath :=
  (t.notify .buried).next i (.buried sequel)

/-- `_send_restarted_notifications` of an attempt, up to the sender. -/
def sendRestartedNotifications (i : Nat) (newAddress : Nat) (t : HandleDeath) : HandleDeath :=
  (t.notify (.restarted newAddress)).next i (.restarted newAddress)

/-- `_retry` and `_set_restart_flag`, up to the first wait. -/
def retry (t : HandleDeath) : HandleDeath :=
  let t := { t with
    attempt := t.attempt + 1
    restarted := t.restarted || !t.announced.isEmpty }
  if t.strategy = .buryme then
    sendBuriedNotifications t.attempts.length .nothing
      { t with attempts := t.attempts ++ [.settingFlag] }
  else { t with soTookResponsability := false, attempts := t.attempts ++ [.settingFlag] }

/-- `solve_localy`. What it does when the attempt is done is `waitHandled`. -/
def solveLocaly (t : HandleDeath) : HandleDeath := t.retry

/-- `_restart_yourself`, up to `start_agent_in_shard`. -/
def restartYourself (i : Nat) (t : HandleDeath) : HandleDeath := t.next i .startingInShard

/-- `_ensure_someone_took_responsability`. -/
def ensureSomeoneTookResponsability (i : Nat) (t : HandleDeath) : HandleDeath :=
  if t.soTookResponsability then t.next i .done else t.restartYourself i

/-- `_send_died_notifications`. -/
def sendDiedNotifications (i : Nat) (t : HandleDeath) : HandleDeath :=
  if t.partners.length = 0 then t.ensureSomeoneTookResponsability i
  else t.next i (.died t.partners.length)

/-- `_on_died_response_handler`. -/
def onDiedResponseHandler (response : Response) (t : HandleDeath) : HandleDeath :=
  if t.soTookResponsability then t
  else if response = .responsabilityAccepted then
    { t with
      soTookResponsability := true
      timeoutCallId := some t.calls
      delayedCalls := t.delayedCalls ++ [t.calls]
      calls := t.calls + 1 }
  else t

/-- `_local_restart_failed`. -/
def localRestartFailed (i : Nat) (t : HandleDeath) : HandleDeath :=
  match t.strategy with
  | .local => t.sendBuriedNotifications i .terminate
  | .wherever => t.next i .clearingHost
  | .monitor => t.sendBuriedNotifications i .checkup
  | .buryme | .other => (t.finalize .failed).next i .done

/-- `_global_restart_failed`, which passes on an error it does not trap. -/
def globalRestartFailed (i : Nat) (error : Error) (t : HandleDeath) : HandleDeath :=
  match error with
  | .protocolFailed => t.sendBuriedNotifications i .fail
  | .other => t.next i .failed

/-- What follows the burial. -/
def follow (i : Nat) (sequel : Sequel) (t : HandleDeath) : HandleDeath :=
  match sequel with
  | .nothing => t.next i .done
  | .terminate => (t.finalize .terminated).next i .done
  | .fail => (t.finalize .failed).next i .done
  | .checkup => t.next i .checkup

/-- `cancel_delayed_call`. -/
def cancelDelayedCall (id : Nat) (t : HandleDeath) : HandleDeath :=
  { t with delayedCalls := t.delayedCalls.erase id }

/-- `restart_complete`. -/
def restartComplete (newAddress : Nat) (t : HandleDeath) : HandleDeath :=
  let t := match t.timeoutCallId with
    | some id => { t.cancelDelayedCall id with timeoutCallId := none }
    | none => t
  { t.notify (.restarted newAddress) with reports := t.reports ++ [newAddress] }

end HandleDeath

/-! ## Runs -/

/-- What the fibers wait for, in the order of `Attempt`, and what is called from outside. Where
an attempt waits for a document, `none` stands for an error. -/
inductive Event where
  | solveLocaly
  | saved (attempt : Nat) (partners : Option (List Nat))
  | responded (attempt : Nat) (response : Response)
  | startedInShard (attempt : Nat) (newAddress : Option Nat)
  | hostCleared (attempt : Nat) (partners : Except Error (List Nat))
  | startedGlobally (attempt : Nat) (newAddress : Except Error Nat)
  | fetched (attempt : Nat) (partners : Except Error (List Nat))
  | senderNotified (attempt : Nat)
  | documentDeleted (attempt : Nat) (ok : Bool)
  | checkedUp (attempt : Nat) (ok : Bool)
  | reported (report : Nat)
  | waitHandled
  | restartComplete (newAddress : Nat)
  | restartHandeled
  | timeoutWaitingForRestart (id : Nat)

/-- One event. -/
def step (t : HandleDeath) : Event → Option HandleDeath
  | .solveLocaly => some t.solveLocaly
  | .saved i partners =>
    if t.attempts[i]? = some .settingFlag then
      match partners with
      | some partners => some ({ t with partners := partners }.sendDiedNotifications i)
      | none => some (t.ensureSomeoneTookResponsability i)
    else none
  | .responded i response =>
    match t.attempts[i]? with
    | some (.died (answers + 1)) =>
      let t := t.onDiedResponseHandler response
      some (if answers = 0 then t.ensureSomeoneTookResponsability i else t.next i (.died answers))
    | _ => none
  | .startedInShard i newAddress =>
    if t.attempts[i]? = some .startingInShard then
      match newAddress with
      | some newAddress => some (t.sendRestartedNotifications i newAddress)
      | none => some (t.localRestartFailed i)
    else none
  | .hostCleared i partners =>
    if t.attempts[i]? = some .clearingHost then
      match partners with
      | .ok partners => some ({ t with partners := partners }.next i .startingGlobally)
      | .error e => some (t.globalRestartFailed i e)
    else none
  | .startedGlobally i newAddress =>
    if t.attempts[i]? = some .startingGlobally then
      match newAddress with
      | .ok newAddress => some (t.next i (.fetching newAddress))
      | .error e => some (t.globalRestartFailed i e)
    else none
  | .fetched i partners =>
    match t.attempts[i]? with
    | some (.fetching newAddress) =>
      match partners with
      | .ok partners => some ({ t with partners := partners }.sendRestartedNotifications i newAddress)
      | .error e => some (t.globalRestartFailed i e)
    | _ => none
  | .senderNotified i =>
    match t.attempts[i]? with
    | some (.restarted newAddress) => some ((t.deathHandled (some newAddress)).next i .done)
    | some (.buried sequel) => some (t.next i (.deleting sequel))
    | _ => none
  | .documentDeleted i ok =>
    match t.attempts[i]? with
    | some (.deleting sequel) =>
      some ((HandleDeath.deathHandled none { t with deleted := t.deleted || ok }).follow i sequel)
    | _ => none
  | .checkedUp i ok =>
    if t.attempts[i]? = some .checkup then
      some (if ok then (t.finalize .terminated).next i .done else t.next i .failed)
    else none
  | .reported r =>
    t.reports[r]?.map fun newAddress =>
      HandleDeath.deathHandled (some newAddress) { t with reports := t.reports.eraseIdx r }
  | .waitHandled =>
    if t.attempts.head? = some .failed ∨ (t.attempts.head? = some .done ∧ t.handled.isSome) then
      some (t.finalize .terminated)
    else none
  | .restartComplete newAddress => some (t.restartComplete newAddress)
  | .restartHandeled => some (t.finalize .terminated)
  | .timeoutWaitingForRestart id =>
    if id ∈ t.delayedCalls then some (t.cancelDelayedCall id).retry else none

end Feat.Agents.Monitor.Restart
