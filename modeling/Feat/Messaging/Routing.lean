import Mathlib.Data.List.Sort
import Feat.Common.ExpDict
import Feat.Lib.Run

/- The routing table of an agency (`feat.agencies.messaging.routing.Table`), with the store
   of the messages that met no final route, and the dispatching of what is posted.

   `Channel.post` draws an identifier for a message and dispatches a copy for each
   recipient; the dispatches are performed later, in any order. The messages that backends
   dispatch are any messages. Copies are numbered as they are dispatched, which nothing in
   the table reads.

   The table keeps no record of what it did. A `Story` does, for each copy: what routes
   there were when the table dispatched it and which of them it was handed to, the routes
   that were appended since, and which of these it was handed to. -/
namespace Feat.Routing
open Hash Expiring Feat.Common

/-- The key and the shard of a recipient. -/
abbrev RouteKey : Type := String × Option String

/-- Who is given messages. -/
abbrev Sink : Type := Nat

structure Route where
  owner : Sink
  priority : Int
  key : Option RouteKey
  final : Bool
  deriving DecidableEq

structure Message where
  number : Nat
  messageId : Nat
  recipient : RouteKey
  expirationTime : Option ℚ
  deriving DecidableEq

/-- `match`. -/
def Route.matches (route : Route) (message : Message) : Bool := route.key = some message.recipient

/-- What the table refuses. -/
inductive RoutingError where
  | attributeError (text : String)
  | runtimeError (new old : Sink)
  deriving DecidableEq

/-! ## The message store -/

abbrev MessageStore : Type := ExpDict Nat Message

namespace MessageStore
variable (order : HashOrder Nat) (now : ℚ)

/-- `insert`: messages without expiration time are ignored. -/
def insert (message : Message) (store : MessageStore) : MessageStore :=
  match message.expirationTime with
  | none => store
  | some exp => store.set order now message.messageId (some message) (some exp) false

/-- `remove`. -/
def remove (store : MessageStore) (message : Message) : MessageStore :=
  (store.pop order now message.messageId (some none)).1

/-- `self._store.itervalues()`. -/
def itervalues (store : MessageStore) : MessageStore × List Message :=
  let store := store.lazyPack order now
  (store, (liveItems order now store.items).filterMap fun p => p.2.value)

/-- `match_to_route`. -/
def matchToRoute (route : Route) (store : MessageStore) : MessageStore × List Message :=
  let (store, values) := store.itervalues order now
  let matching := values.filter route.matches
  (if route.final then matching.foldl (remove order now) store else store, matching)

end MessageStore

/-! ## The table -/

structure Table where
  routes : List Route
  outgoingSink : Option Sink
  messageStore : MessageStore

namespace Table
variable (order : HashOrder Nat) (now : ℚ)

def new : Table := ⟨[], none, ExpDict.new none⟩

/-- `set_outgoing_sink`. -/
def setOutgoingSink (sink : Sink) (t : Table) : Except RoutingError Table :=
  match t.outgoingSink with
  | some old => .error (.runtimeError sink old)
  | none => .ok { t with outgoingSink := some sink }

/-- `_fix_order`. -/
def fixOrder (routes : List Route) : List Route :=
  routes.insertionSort fun a b => a.priority ≤ b.priority

/-- `append_route`, with the messages that are sent to the route. -/
def appendRoute (route : Route) (t : Table) : Except RoutingError (Table × List Message) :=
  if route.key = none then
    .error (.attributeError "Routes in routing table need to have the key")
  else
    let (store, toDeliver) := t.messageStore.matchToRoute order now route
    .ok ({ t with messageStore := store, routes := fixOrder (t.routes ++ [route]) }, toDeliver)

/-- `remove_route`: the first route that is equal. -/
def removeRoute (route : Route) (t : Table) : Table := { t with routes := t.routes.erase route }

/-- The loop of `remove_sink`, which removes routes from the list that it walks. -/
def removeSinkFrom (sink : Sink) : Nat → Nat → List Route → List Route
  | 0, _, routes => routes
  | fuel + 1, i, routes =>
    match routes[i]? with
    | none => routes
    | some route =>
      removeSinkFrom sink fuel (i + 1) (if route.owner = sink then routes.erase route else routes)

/-- `remove_sink`. -/
def removeSink (sink : Sink) (t : Table) : Table :=
  { t with
    routes := removeSinkFrom sink t.routes.length 0 t.routes
    outgoingSink := if t.outgoingSink = some sink then none else t.outgoingSink }

/-- The loop of `dispatch`: the routes the message is sent to, and whether the last of them
    is final. -/
def sendToRoutes (message : Message) : List Route → List Route × Bool
  | [] => ([], false)
  | route :: routes =>
    if route.matches message then
      if route.final then ([route], true)
      else
        let (reached, final) := sendToRoutes message routes
        (route :: reached, final)
    else sendToRoutes message routes

/-- `dispatch`, with the routes and the outgoing sink that the message is sent to. -/
def dispatch (message : Message) (outgoing : Bool) (t : Table) :
    Table × List Route × Option Sink :=
  let (reached, final) := sendToRoutes message t.routes
  if final then (t, reached, none)
  else
    ({ t with messageStore := t.messageStore.insert order now message }, reached,
      if outgoing then t.outgoingSink else none)

end Table

/-! ## Messaging -/

/-- What became of a copy. -/
structure Story where
  copy : Message
  time : ℚ
  routes : List Route
  present : List Route
  outgoing : Option Sink
  later : List (Route × ℚ)
  handed : List Route

/-- The story of a copy goes on: a route was appended and messages were sent to it. -/
def Story.goOn (route : Route) (now : ℚ) (toDeliver : List Message) (story : Story) : Story :=
  { story with
    later := story.later ++ [(route, now)]
    handed := story.handed ++
      (toDeliver.filter fun message => message.number = story.copy.number).map fun _ => route }

structure Messaging where
  now : ℚ
  routing : Table
  pendingDispatches : List (Message × Bool)
  nextId : Nat
  sent : Nat
  stories : List Story

namespace Messaging

def new : Messaging where
  now := 0
  routing := Table.new
  pendingDispatches := []
  nextId := 0
  sent := 0
  stories := []

/-- `dispatch`. -/
def dispatch (messageId : Nat) (expirationTime : Option ℚ) (outgoing : Bool) (s : Messaging)
    (recipient : RouteKey) : Messaging :=
  { s with
    pendingDispatches :=
      s.pendingDispatches ++ [(⟨s.sent, messageId, recipient, expirationTime⟩, outgoing)]
    sent := s.sent + 1 }

/-- `Channel.post`. -/
def post (recipients : List RouteKey) (expirationTime : Option ℚ) (s : Messaging) : Messaging :=
  recipients.foldl (dispatch s.nextId expirationTime true) { s with nextId := s.nextId + 1 }

inductive Event where
  | post (recipients : List RouteKey) (expirationTime : Option ℚ)
  | received (messageId : Nat) (recipient : RouteKey) (expirationTime : Option ℚ)
    (outgoing : Bool)
  | next (i : Nat)
  | appendRoute (route : Route)
  | removeRoute (route : Route)
  | removeSink (sink : Sink)
  | setOutgoingSink (sink : Sink)
  | elapsed (seconds : ℚ)
  deriving DecidableEq

variable (order : HashOrder Nat)

/-- `_dispatch_internal`. -/
def dispatchInternal (i : Nat) (s : Messaging) : Option Messaging :=
  s.pendingDispatches[i]?.map fun (message, outgoing) =>
    let (table, reached, sink) := s.routing.dispatch order s.now message outgoing
    { s with
      routing := table
      pendingDispatches := s.pendingDispatches.eraseIdx i
      stories := s.stories ++ [⟨message, s.now, s.routing.routes, reached, sink, [], []⟩] }

/-- `append_binding`. -/
def appendBinding (route : Route) (s : Messaging) : Messaging :=
  match s.routing.appendRoute order s.now route with
  | .error _ => s
  | .ok (table, toDeliver) =>
    { s with
      routing := table
      stories := s.stories.map (Story.goOn route s.now toDeliver) }

def step (s : Messaging) : Event → Option Messaging
  | .post recipients expirationTime => some (post recipients expirationTime s)
  | .received messageId recipient expirationTime outgoing =>
    some (dispatch messageId expirationTime outgoing s recipient)
  | .next i => dispatchInternal order i s
  | .appendRoute route => some (appendBinding order route s)
  | .removeRoute route => some { s with routing := s.routing.removeRoute route }
  | .removeSink sink => some { s with routing := s.routing.removeSink sink }
  | .setOutgoingSink sink =>
    match s.routing.setOutgoingSink sink with
    | .error _ => some s
    | .ok table => some { s with routing := table }
  | .elapsed seconds => if 0 ≤ seconds then some { s with now := s.now + seconds } else none

end Messaging
end Feat.Routing
