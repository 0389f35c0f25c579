import Mathlib.Logic.Function.Basic
import Feat.Lib.Run

/- Notifications for partners that wait to be delivered (`NotificationSender` of
   `feat.agents.base.sender`).

   The notifications wait in the descriptor, in one list for each recipient. A chain of
   callbacks sends the first one, removes it when it is delivered and goes on with the
   next; when it is not delivered it asks for the document of the recipient, forgets the
   recipient if there is none, and takes its new address otherwise. Several chains may
   work for one recipient. All changes of the descriptor go through the queue of
   `AgencyAgent`, which saves one at a time.

   A notification is what its type, origin and payload make of it (`Body`) and its
   recipient, and is compared by value. The entries of the lists carry a number of
   their own, which the code does not have, to tell equal ones apart. A recipient that
   is found has the route of its document, and the agent is not started again. -/
namespace Feat.Agents.NotificationSender

variable {Key Route Body : Type} [DecidableEq Key] [DecidableEq Route] [DecidableEq Body]

structure Recipient (Key Route : Type) where
  key : Key
  route : Option Route
  deriving DecidableEq

structure Notification (Key Route Body : Type) where
  body : Body
  recipient : Recipient Key Route
  deriving DecidableEq

/-- A notification in a list, with the number of its occurrence. -/
structure Entry (Key Route Body : Type) where
  serial : Nat
  notification : Notification Key Route Body
  deriving DecidableEq

/-- An update of the descriptor. -/
inductive Update (Key Route Body : Type) where
  | append (notifications : List (Notification Key Route Body))
  | remove (notification : Notification Key Route Body)
  | forget (key : Key)
  | readdress (recipient : Recipient Key Route)

/-- What a chain of callbacks waits for: a reply, or a document. -/
inductive Chain (Key Route Body : Type) where
  | sending (notification : Notification Key Route Body)
  | checking (recipient : Recipient Key Route)

/-- What `get_document` of a recipient answers. -/
inductive Document (Route : Type) where
  | found (route : Option Route)
  | notFound
  | failed

structure State (Key Route Body : Type) where
  /-- `pending_notifications` of the descriptor. A key that is missing has the empty list. -/
  pending : Key → List (Entry Key Route Body)
  updates : List (Update Key Route Body)
  chains : List (Chain Key Route Body)
  /-- The number of the next entry. -/
  serial : Nat
  /-- What was put into the lists, what was delivered and whose document was not found. -/
  notified : List (Notification Key Route Body)
  delivered : List (Notification Key Route Body)
  deleted : List Key

/-- What happens. `run` has the recipients in the order of the outbox, but for those that the clerk
knows not to be alive; `failed` tells whether the protocol failed, or something else did. -/
inductive Event (Key Route Body : Type) where
  | notify (notifications : List (Notification Key Route Body))
  | run (keys : List Key)
  | flush (key : Key)
  | delivered (i : Nat)
  | failed (i : Nat) (protocol : Bool)
  | document (i : Nat) (answer : Document Route)
  | updated
  | updateFails

namespace State

/-- `_flush_next`. -/
def flushNext (s : State Key Route Body) (key : Key) : State Key Route Body :=
  match s.pending key with
  | entry :: _ => { s with chains := s.chains ++ [.sending entry.notification] }
  | [] => s

/-- `do_append`, for one notification. -/
def append (s : State Key Route Body) (n : Notification Key Route Body) : State Key Route Body :=
  { s with
    pending :=
      Function.update s.pending n.recipient.key (s.pending n.recipient.key ++ [⟨s.serial, n⟩])
    serial := s.serial + 1
    notified := s.notified ++ [n] }

/-- `do_remove` of `_remove_notification`. -/
def remove (s : State Key Route Body) (n : Notification Key Route Body) : State Key Route Body :=
  { s with
    pending := Function.update s.pending n.recipient.key
      ((s.pending n.recipient.key).eraseP (·.notification = n)) }

/-- `do_remove` of `_forget_recipient`. -/
def forget (s : State Key Route Body) (key : Key) : State Key Route Body :=
  { s with pending := Function.update s.pending key [] }

/-- `do_update`. -/
def readdress (s : State Key Route Body) (recp : Recipient Key Route) : State Key Route Body :=
  { s with
    pending := Function.update s.pending recp.key <| (s.pending recp.key).map fun e =>
      { e with notification := { e.notification with recipient := recp } } }

/-- An update is saved, and what waits for it goes on. -/
def save (s : State Key Route Body) : Update Key Route Body → State Key Route Body
  | .append notifications => notifications.foldl append s
  | .remove n => (s.remove n).flushNext n.recipient.key
  | .forget key => s.forget key
  | .readdress recp => s.readdress recp

/-- An update is not saved. -/
def discard (s : State Key Route Body) : Update Key Route Body → State Key Route Body
  | .remove n => s.flushNext n.recipient.key
  | _ => s

/-- `_check_recipient`. -/
def checkRecipient (s : State Key Route Body) (recp new : Recipient Key Route) :
    State Key Route Body :=
  if recp ≠ new ∧ new.route ≠ none then { s with updates := s.updates ++ [.readdress new] } else s

def step (s : State Key Route Body) : Event Key Route Body → Option (State Key Route Body)
  | .notify notifications => some { s with updates := s.updates ++ [.append notifications] }
  | .run keys => some (keys.foldl flushNext s)
  | .flush key => some (s.flushNext key)
  | .delivered i =>
    match s.chains[i]? with
    | some (.sending n) =>
      some { s with
        chains := s.chains.eraseIdx i
        delivered := s.delivered ++ [n]
        updates := s.updates ++ [.remove n] }
    | _ => none
  | .failed i protocol =>
    match s.chains[i]? with
    | some (.sending n) =>
      let chains := s.chains.eraseIdx i
      some { s with chains := if protocol then chains ++ [.checking n.recipient] else chains }
    | _ => none
  | .document i answer =>
    match s.chains[i]? with
    | some (.checking recp) =>
      let s' := { s with chains := s.chains.eraseIdx i }
      match answer with
      | .found route => some (s'.checkRecipient recp ⟨recp.key, route⟩)
      | .notFound =>
        some { s' with
          deleted := s.deleted ++ [recp.key]
          updates := s.updates ++ [.forget recp.key] }
      | .failed => some s'
    | _ => none
  | .updated =>
    match s.updates with
    | [] => none
    | u :: rest => some (save { s with updates := rest } u)
  | .updateFails =>
    match s.updates with
    | [] => none
    | u :: rest => some (discard { s with updates := rest } u)

def start : State Key Route Body where
  pending _ := []
  updates := []
  chains := []
  serial := 0
  notified := []
  delivered := []
  deleted := []

/-! ## Nothing is dropped, nothing overtakes -/

/-- What was put into the list of a recipient, and what was delivered to it. -/
def notifiedTo (s : State Key Route Body) (key : Key) : List Body :=
  (s.notified.filter (·.recipient.key = key)).map (·.body)

def deliveredTo (s : State Key Route Body) (key : Key) : List Body :=
  (s.delivered.filter (·.recipient.key = key)).map (·.body)

/-- An entry leaves its list only after an equal one was delivered, or the document of its
recipient was found to be deleted. -/
def Keeps (s t : State Key Route Body) : Prop :=
  ∀ key, ∀ e ∈ s.pending key, (∃ e' ∈ t.pending key, e'.serial = e.serial) ∨
    e.notification ∈ s.delivered ∧ e.notification.recipient.key = key ∨ key ∈ s.deleted

/-- The first deliveries to a recipient are in the order of its notifications. -/
def InOrder (s : State Key Route Body) (key : Key) : Prop :=
  (s.deliveredTo key).eraseDups.Sublist (s.notifiedTo key).eraseDups

end State
end Feat.Agents.NotificationSender
