import Mathlib.Data.List.Chain
import Feat.Common.ExpQueue
import Feat.Lib.Run

/- An interest of an agent (`feat.agencies.protocols.BaseInterest` and `DialogInterest`):
   the messages it gets, the protocols they start, and the queue of those that have to
   wait because as many protocols run as the interest allows.

   A protocol may be finished before its `initiate` returns (`immediate`); the next
   message is then processed from within. What happens to each message is kept for the
   record, with what was running and waiting when a protocol ended. -/
namespace Feat.Agencies
open Feat.Common Expiring Transition

namespace Interest

/-- `initiator` says whether a protocol of the interest starts with such a message. -/
structure Message where
  key : Nat
  initiator : Bool
  expirationTime : Option ℚ
  deriving DecidableEq

/-- What an interest did. A protocol that ended was the last one if no other one is left
    and no live message waits. -/
inductive Entry where
  | started (message : Message)
  | ended (message : Message) (last : Bool)
  | finished
  deriving DecidableEq

def Entry.isLast : Entry → Bool
  | .ended _ last => last
  | _ => false

def Entry.start : Entry → Option Message
  | .started message => some message
  | _ => none

def Entry.stop : Entry → Option Message
  | .ended message _ => some message
  | _ => none

end Interest

open Interest

structure Interest where
  concurrency : Option Nat
  queue : Option (ExpQueue Interest.Message)
  active : Nat
  waiters : List Nat
  released : List Nat
  running : List Interest.Message
  log : List Interest.Entry
  accepted : List Interest.Message
  expired : List (Interest.Message × ℚ)
  revoked : List Interest.Message

namespace Interest

/-- `BaseInterest(agent_factory)`, bound to its agent. -/
def new (concurrency : Option Nat) : Interest where
  concurrency := concurrency
  queue := concurrency.map fun _ => .new none
  active := 0
  waiters := []
  released := []
  running := []
  log := []
  accepted := []
  expired := []
  revoked := []

/-- The entries of the queue. -/
def entries (s : Interest) : List (Item ℚ Message) :=
  match s.queue with
  | some q => q.heap.toList
  | none => []

/-- `is_idle`. -/
def isIdle (s : Interest) : Bool := s.active = 0

/-- `wait_finished`. -/
def waitFinished (waiter : Nat) (s : Interest) : Interest :=
  if s.isIdle then { s with released := s.released ++ [waiter] }
  else { s with waiters := s.waiters ++ [waiter] }

/-- `clear_queue`, of which `revoke` consists here. -/
def clearQueue (s : Interest) : Interest :=
  match s.queue with
  | some q => { s with
      queue := some q.clear
      revoked := s.revoked ++ q.heap.toList.map Item.value }
  | none => s

/-- The notifier's callback on "finished". -/
def notifyFinished (s : Interest) : Interest :=
  { s with
    waiters := []
    released := s.released ++ s.waiters
    log := s.log ++ [.finished] }

/-- One more protocol runs. -/
def start (m : Message) (s : Interest) : Interest :=
  { s with
    active := s.active + 1
    running := s.running ++ [m]
    log := s.log ++ [.started m] }

/-- One protocol less runs. -/
def stop (now : ℚ) (m : Message) (s : Interest) : Interest :=
  let last : Bool := s.running.erase m = [] ∧ ∀ i ∈ s.entries, i.alive now = false
  { s with
    active := s.active - 1
    running := s.running.erase m
    log := s.log ++ [Entry.ended m last] }

/-- The queue after an operation, and what that dropped. -/
def setQueue (now : ℚ) (dropped : List (Item ℚ Message)) (q : ExpQueue Message) (s : Interest) :
    Interest :=
  { s with
    queue := some q
    expired := s.expired ++ dropped.map fun i => (i.value, now) }

/-- `_message_processed`. -/
def messageProcessed (process : Message → Interest → Option Interest) (now : ℚ) (m : Message)
    (s : Interest) : Option Interest :=
  if s.active > 0 then
    let s := stop now m s
    let notify (s : Interest) := if s.active = 0 then notifyFinished s else s
    match s.queue with
    | some q =>
      let (value, dropped, q) := q.pop now
      let s := setQueue now dropped q s
      match value with
      | some next => process next s
      | none => some (notify s)
    | none => some (notify s)
  else none

variable (immediate : Message → Bool)

/-- `_process_message`: an assertion may fail. As many messages follow from within as
    there are in the queue. -/
def processMessage (now : ℚ) : Nat → Message → Interest → Option Interest
  | 0, _, _ => none
  | depth + 1, m, s =>
    if ∀ limit, s.concurrency = some limit → limit ≠ 0 → s.active < limit then
      let s := start m s
      if immediate m then messageProcessed (processMessage now depth) now m s else some s
    else none

/-- A message of the kind that the interest is in. -/
def accept (m : Message) (s : Interest) : Interest := { s with accepted := s.accepted ++ [m] }

/-- `schedule_message`: whether the message is accepted. -/
def scheduleMessage (now : ℚ) (m : Message) (s : Interest) : Option (Bool × Interest) :=
  if m.initiator then
    let s := accept m s
    match s.queue, s.concurrency with
    | some q, some limit =>
      if s.active ≥ limit then
        let (dropped, q) := q.add now m m.expirationTime false
        some (true, setQueue now dropped q s)
      else (processMessage immediate now (s.entries.length + 1) m s).map fun s => (true, s)
    | _, _ => (processMessage immediate now (s.entries.length + 1) m s).map fun s => (true, s)
  else some (false, s)

inductive Event where
  | scheduled (now : ℚ) (message : Message)
  | terminated (now : ℚ) (message : Message)
  | waited (waiter : Nat)
  | revoked

/-- One event: a protocol that terminates is one that runs. No step is an assertion that
    fails. -/
def step (s : Interest) : Event → Option Interest
  | .scheduled now m => (scheduleMessage immediate now m s).map Prod.snd
  | .terminated now m =>
    if m ∈ s.running then
      messageProcessed (processMessage immediate now s.entries.length) now m s
    else none
  | .waited waiter => some (waitFinished waiter s)
  | .revoked => some (clearQueue s)

end Interest
end Feat.Agencies
