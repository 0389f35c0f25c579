import Feat.Lib.Hash
import Feat.Lib.Run

/- The channel to the AMQP broker (`feat.agencies.messaging.net.Channel`): the calls that
   are made through it, the chain they wait in, and the loop that performs them.

   The broker answers one request after the other. A call asks for none, one or several:
   `stages` says for which. Calls other than those of bindings are taken to ask for one.
   Any answer may come at any time, also after the connection was lost, and so may the
   end of a configuration that was started before.

   What became of each call is kept in `log`. Calls are numbered in the order in which
   they are recorded (`recorded`). -/
namespace Feat.Messaging
open Hash

inductive ChannelState where
  | recording
  | performing
  deriving DecidableEq

/-- An exchange and a key. -/
abbrev BindingKey : Type := String × Option String

/-- The methods that are called through `_call_on_channel`. -/
inductive Method where
  | configureQueue (name : String)
  | defineExchange (name exchangeType : String)
  | createBinding (exchange : String) (key : Option String) (queue : String)
  | deleteBinding (exchange : String) (key : Option String) (queue : String)
  | ack (deliveryTag : Nat)
  | disconnect
  | flushPendingMessages
  deriving DecidableEq

/-- `only_when_connected`. -/
def Method.onlyWhenConnected : Method → Bool
  | .ack _ => true
  | .disconnect => true
  | _ => false

/-- `remember_between_connections`. -/
def Method.rememberBetweenConnections : Method → Bool
  | .ack _ => false
  | _ => true

/-- What the broker is asked for. -/
inductive Request where
  | exchangeDeclare (exchange exchangeType : String)
  | queueBind (exchange : String) (key : Option String) (queue : String)
  | queueUnbind (exchange : String) (key : Option String) (queue : String)
  | other (method : Method)
  deriving DecidableEq

/-- `ProcessingCall`: `called` is whether its Deferred was fired. -/
structure ProcessingCall where
  number : Nat
  method : Method
  called : Bool
  deriving DecidableEq

/-- A call that is performed asks the broker for something at once, or for nothing. -/
inductive Entry where
  | performed (number : Nat) (method : Method) (asked : Option Request)
  | requested (request : Request)
  | succeeded (number : Nat) (method : Method)
  | failed (number : Nat) (method : Method)
  | fired (number : Nat)
  | dropped (number : Nat)
  deriving DecidableEq

/-- `current` is the call that is being performed, with the requests that are still to be
    answered; `scheduled` says that the loop is about to start. -/
structure Channel where
  state : ChannelState
  processingChain : List ProcessingCall
  isProcessing : Bool
  scheduled : Bool
  current : Option (ProcessingCall × List Request)
  bindingsCount : Dict BindingKey Int
  configuring : Nat
  recorded : List Method
  log : List Entry

namespace Channel

def new : Channel where
  state := .recording
  processingChain := []
  isProcessing := false
  scheduled := false
  current := none
  bindingsCount := ∅
  configuring := 0
  recorded := []
  log := []

def record (es : List Entry) (s : Channel) : Channel := { s with log := s.log ++ es }

/-- `_bindings_count.get`. -/
def count (s : Channel) (b : BindingKey) : Int := (s.bindingsCount.lookup b).getD 0

/-- `_bindings_count` after a method was called: the count is changed first. -/
def counted (m : Method) (counts : Dict BindingKey Int) : Dict BindingKey Int :=
  match m with
  | .createBinding exchange key _ =>
    counts.insert (exchange, key) ((counts.lookup (exchange, key)).getD 0 + 1)
  | .deleteBinding exchange key _ =>
    let n := (counts.lookup (exchange, key)).getD 0
    if n = 1 then counts.erase (exchange, key) else counts.insert (exchange, key) (n - 1)
  | _ => counts

/-- What a method asks the broker for. -/
def stages (m : Method) (counts : Dict BindingKey Int) : List Request :=
  match m with
  | .createBinding exchange key queue =>
    [.exchangeDeclare exchange (if key.isSome then "direct" else "fanout"),
      .queueBind exchange key queue]
  | .deleteBinding exchange key queue =>
    if (counts.lookup (exchange, key)).getD 0 = 1 then [.queueUnbind exchange key queue] else []
  | m => [.other m]

/-- `process_next`. -/
def processNext (s : Channel) : Channel :=
  if s.isProcessing then s else { s with isProcessing := true, scheduled := true }

/-- `_call_on_channel`: a call that needs a connection is ignored without one. -/
def callOnChannel (m : Method) (s : Channel) : Channel :=
  if m.onlyWhenConnected ∧ s.state = .recording then s
  else processNext { s with
    processingChain := s.processingChain ++ [⟨s.recorded.length, m, false⟩]
    recorded := s.recorded ++ [m] }

/-- `_process_next`, which performs a call or ends the loop. -/
def performNext (s : Channel) : Channel :=
  match s.state, s.processingChain with
  | .performing, call :: rest =>
    let requests := stages call.method s.bindingsCount
    record [.performed call.number call.method requests.head?]
      { s with
        processingChain := rest
        current := some (call, requests)
        bindingsCount := counted call.method s.bindingsCount }
  | _, _ => { s with isProcessing := false, current := none }

/-- `_processing_error_handler`. -/
def processingErrorHandler (call : ProcessingCall) (s : Channel) : Channel :=
  { s with
    state := .recording
    processingChain := call :: s.processingChain
    isProcessing := false
    current := none }

/-- The end of `perform`: the Deferred of the call is fired. When it was fired before,
    that fails, and so does the call. -/
def answered (call : ProcessingCall) (success : Bool) (s : Channel) : Channel :=
  if call.called then processingErrorHandler call s
  else
    let s := record [.fired call.number] s
    if success then performNext s
    else processingErrorHandler { call with called := true } s

/-- The broker's answer to the request of the current call. -/
def answer (success : Bool) (s : Channel) : Option Channel :=
  match s.current with
  | some (call, _ :: next :: rest) =>
    if success then
      some (record [.requested next] { s with current := some (call, next :: rest) })
    else some (answered call false (record [.failed call.number call.method] s))
  | some (call, [_]) =>
    if success then some (answered call true (record [.succeeded call.number call.method] s))
    else some (answered call false (record [.failed call.number call.method] s))
  | some (call, []) =>
    -- nothing was asked for
    if success then some (answered call true (record [.succeeded call.number call.method] s))
    else none
  | none => none

/-- `_on_connection_lost`. -/
def onConnectionLost (s : Channel) : Channel := { s with state := .recording }

/-- The first part of `_on_configured`, with `_cleanup_processing_chain`. -/
def onConfigured (s : Channel) : Channel :=
  let keep (call : ProcessingCall) := call.method.rememberBetweenConnections
  record ((s.processingChain.filter fun call => !keep call).map fun call => .dropped call.number)
    { s with
      processingChain := s.processingChain.filter keep
      configuring := s.configuring + 1 }

/-- The rest of `_on_configured`, when the queues are configured. -/
def queuesConfigured (s : Channel) : Channel :=
  callOnChannel .flushPendingMessages (processNext { s with
    configuring := s.configuring - 1
    state := .performing })

inductive Event where
  | call (method : Method)
  | started
  | answered (success : Bool)
  | lost
  | connected
  | configured
  deriving DecidableEq

def step (s : Channel) : Event → Option Channel
  | .call m => some (callOnChannel m s)
  | .started => if s.scheduled then some (performNext { s with scheduled := false }) else none
  | .answered success => answer success s
  | .lost => some (onConnectionLost s)
  | .connected => some (onConfigured s)
  | .configured => if s.configuring > 0 then some (queuesConfigured s) else none

end Channel
end Feat.Messaging
