import Feat.Agencies.EntriesCache
import Feat.Lib.Run

/- The journaler and the writers it hands its entries to (`feat.agencies.journaler`: `Journaler`
   and `PostgresWriter`), with the Deferreds between them.

   Entries are numbered in the order of insertion. The journaler has one flush at a time; the
   flush waits for the Deferred of `insert_entries` of a writer, which is a chain of calls of
   `_flush_next`. Such a chain waits for the connection, then for the pool, which has one
   connection, and is called again when an interaction of its own was committed; it succeeds
   when it finds the cache of the writer empty. Chains that the writer starts itself have nobody
   who waits for them (`Owner`). A wait that is cancelled fails with the error of a
   `DeferredList`, which is not the `CancelledError` that `in_state` traps.

   The pool and the database are not part of the sources: an interaction may fail to run, its
   inserts may fail and its COMMIT may fail. What the reactor is to call next comes before the
   database answers, so no interaction begins while a writer has to tell that it is connected.
   A writer is initiated again only by the timer of a connection that failed. -/
namespace Feat.Agencies.Journaling
open Transition

/-! ## The writer -/

/-- Who waits for a chain of calls of `_flush_next`. -/
inductive Owner where
  | journaler
  | own
  deriving DecidableEq

/-- Where an interaction is: it has the connection, its inserts are on their way, its COMMIT is. -/
inductive Interaction where
  | called
  | inserting
  | committing (entries : List Nat)

/-- What became of connecting: `initiate` was not called, its Deferred is waited for, it will be
called again, the connection was established, or the writer gave up. -/
inductive Connection where
  | created
  | initiated
  | retrying
  | established
  | givenUp
  deriving DecidableEq

/-- `PostgresWriter`, with what its database has stored. -/
structure PostgresWriter where
  connection : Connection
  connected : Bool
  notifying : Bool
  db : Bool
  cache : EntriesCache Nat
  waiting : List Owner
  running : Option (Owner × Interaction)
  queue : List Owner
  closing : Nat
  stored : List Nat

namespace PostgresWriter

def new : PostgresWriter := ⟨.created, false, false, false, .new, [], none, [], 0, []⟩

/-- A writer and the outcome of the Deferred that the journaler waits for, if it is fired. -/
abbrev Outcome := PostgresWriter × Option Bool

/-- The chain is over. -/
def fired (w : PostgresWriter) (owner : Owner) (ok : Bool) : Outcome :=
  (w, if owner = .journaler then some ok else none)

/-- `runInteraction`. -/
def runInteraction (w : PostgresWriter) (owner : Owner) : PostgresWriter :=
  if w.running.isNone then { w with running := some (owner, .called) }
  else { w with queue := w.queue ++ [owner] }

/-- `_flush_next` in the connected state; without a pool it raises. -/
def flushBody (w : PostgresWriter) (owner : Owner) : Outcome :=
  if w.cache.cache.isEmpty then w.fired owner true
  else if w.db then (w.runInteraction owner, none)
  else w.fired owner false

/-- `_flush_next`. -/
def flushNext (w : PostgresWriter) (owner : Owner) : Outcome :=
  if w.connected then w.flushBody owner else ({ w with waiting := w.waiting ++ [owner] }, none)

/-- `insert_entries`. -/
def insertEntries (w : PostgresWriter) (entries : List Nat) : Outcome :=
  { w with cache := entries.foldl EntriesCache.append w.cache }.flushNext .journaler

/-- `initiate`. -/
def initiate (w : PostgresWriter) : PostgresWriter :=
  { w with db := true, connection := .initiated }

/-- `_connection_established`. -/
def connectionEstablished (w : PostgresWriter) : Outcome :=
  { w with connection := .established, connected := true, notifying := true }.flushNext .own

/-- All waits for the connection are cancelled. -/
def cancel (w : PostgresWriter) : Outcome :=
  ({ w with waiting := [] }, if Owner.journaler ∈ w.waiting then some false else none)

/-- `_connection_failed`. -/
def connectionFailed (w : PostgresWriter) (givesUp : Bool) : Outcome :=
  let w := { w with db := false }
  if givesUp then { w with connection := .givenUp }.cancel
  else ({ w with connection := .retrying }, none)

/-- `_initiate_defer.cancel()`, where there is something to cancel. -/
def cancelInitiate (w : PostgresWriter) : Outcome :=
  if w.connection = .initiated then w.connectionFailed true else (w, none)

/-- `close`, up to the Deferreds that it waits for. -/
def close (w : PostgresWriter) (flush : Bool) : Outcome :=
  let (w, outcome) := w.cancelInitiate
  let w := if flush ∧ w.connected then (w.flushNext .own).1 else w
  ({ w with db := false, closing := w.closing + 1 }, outcome)

/-- The end of `close`. -/
def closed (w : PostgresWriter) : Outcome :=
  { w with connected := false, closing := w.closing - 1 }.cancel

/-- The waits for the connection are over, one after the other. -/
def wake (w : PostgresWriter) : List Owner → Outcome
  | [] => (w, none)
  | owner :: owners =>
    let next := w.flushBody owner
    let rest := next.1.wake owners
    (rest.1, next.2.or rest.2)

/-- The others are told that the writer is connected. -/
def notify (w : PostgresWriter) : Outcome :=
  { w with waiting := [], notifying := false }.wake w.waiting

/-- The connection of the pool goes to the next interaction. -/
def release (w : PostgresWriter) : PostgresWriter :=
  match w.queue with
  | [] => { w with running := none }
  | owner :: queue => { w with running := some (owner, .called), queue }

/-- `_perform_inserts`, up to its first answer. -/
def performInserts (w : PostgresWriter) (owner : Owner) : Outcome :=
  match w.cache.fetch with
  | none => w.release.fired owner false
  | some ([], _) => ({ w with running := some (owner, .committing []) }, none)
  | some (_ :: _, cache) => ({ w with cache, running := some (owner, .inserting) }, none)

/-- The callbacks at the end of `_perform_inserts`. -/
def inserted (w : PostgresWriter) (owner : Owner) (ok : Bool) : Outcome :=
  if ok then match w.cache.commit with
    | none => w.release.fired owner false
    | some cache =>
      let entries := w.cache.cache.take (w.cache.cache.length - cache.cache.length)
      ({ w with cache, running := some (owner, .committing entries) }, none)
  else match w.cache.rollback with
    | none => w.release.fired owner false
    | some cache => { w with cache }.release.fired owner false

/-- The COMMIT of an interaction is answered. -/
def committed (w : PostgresWriter) (owner : Owner) (entries : List Nat) (ok : Bool) : Outcome :=
  if ok then { w with stored := w.stored ++ entries }.release.flushNext owner
  else w.release.fired owner false

/-- What happens to a writer: it is initiated by the timer, its connection is established or not,
the others are told so, `close` comes to its end, and an interaction goes on. -/
inductive Event where
  | initiate
  | connectionEstablished
  | connectionFailed (givesUp : Bool)
  | notify
  | closed
  | notRun
  | performInserts
  | inserted (ok : Bool)
  | committed (ok : Bool)
  deriving DecidableEq

def step (w : PostgresWriter) : Event → Option Outcome
  | .initiate => if w.connection = .retrying then some (w.initiate, none) else none
  | .connectionEstablished =>
    if w.connection = .initiated then some w.connectionEstablished else none
  | .connectionFailed givesUp =>
    if w.connection = .initiated then some (w.connectionFailed givesUp) else none
  | .notify => if w.notifying then some w.notify else none
  | .closed => if w.closing = 0 then none else some w.closed
  | .notRun => match w.running with
    | some (owner, .called) => some (w.release.fired owner false)
    | _ => none
  | .performInserts => match w.running with
    | some (owner, .called) => if w.notifying then none else some (w.performInserts owner)
    | _ => none
  | .inserted ok => match w.running with
    | some (owner, .inserting) => some (w.inserted owner ok)
    | _ => none
  | .committed ok => match w.running with
    | some (owner, .committing entries) => some (w.committed owner entries ok)
    | _ => none

end PostgresWriter

/-! ## The journaler -/

/-- Where the flush is that `_flush_task` stands for. -/
inductive FlushTask where
  | none
  | scheduled
  | waiting
  | inserting (writer : Nat)
  deriving DecidableEq

/-- `Journaler`, and all writers it has had.

`notifying`, `due` and `dueCloses` are the calls of the notifier, of `use_next_writer` and of `close` of a
writer that the reactor is to make, `switching` and `closing` the calls of `use_next_writer` and `close` that wait
for the old writer. What was inserted, which entries left the cache for which writer, and whose
waiters were fired, is recorded. -/
structure Journaler where
  connected : Bool
  writer : Option Nat
  cache : EntriesCache Nat
  task : FlushTask
  possibleTargets : Nat
  currentTargetIndex : Option Nat
  waiters : List (List Nat)
  notifying : Nat
  due : Nat
  dueCloses : List Nat
  switching : Nat
  closing : Nat
  writers : List PostgresWriter
  inserted : Nat
  left : List (Nat × Nat)
  fired : List Nat

namespace Journaler

def new : Journaler := ⟨false, none, .new, .none, 0, none, [], 0, 0, [], 0, 0, [], 0, [], []⟩

/-- `_schedule_flush`. -/
def scheduleFlush (s : Journaler) : Journaler :=
  if s.connected ∧ s.task = .none then { s with task := .scheduled } else s

/-- `insert_entries` with so many entries, and `insert_entry` with one. -/
def insertEntries (s : Journaler) (n : Nat) : Journaler :=
  let entries := List.range' s.inserted n
  let s := { s with
    cache := entries.foldl EntriesCache.append s.cache
    inserted := s.inserted + n }
  let s := s.scheduleFlush
  { s with waiters := s.waiters ++ [entries] }

/-- The entries that were fetched. -/
def fetched (s : Journaler) : List Nat := s.cache.cache.take (s.cache.fetched.getD 0)

/-- `_cache.commit()`, where the writer is the one the entries were handed to. -/
def commit (s : Journaler) (writer : Nat) : Journaler :=
  match s.cache.commit with
  | none => s
  | some cache => { s with cache, left := s.left ++ s.fetched.map fun entry => (entry, writer) }

/-- `_flush_complete`. -/
def flushComplete (s : Journaler) : Journaler :=
  let s := match s.task with
    | .inserting writer => if s.cache.isLocked then s.commit writer else s
    | _ => s
  let s := { s with task := .none, fired := s.fired ++ s.waiters.flatten, waiters := [] }
  if s.cache.cache.length > 0 then s.scheduleFlush else s

/-- `_flush_error`. -/
def flushError (s : Journaler) : Journaler :=
  match s.cache.rollback with
  | none => s
  | some cache =>
    { s with
      cache
      dueCloses := s.dueCloses ++ s.writer.toList
      writer := none
      connected := false
      task := .none
      due := s.due + 1 }

/-- The Deferred that the flush waits for is fired, if it is. -/
def resolve (s : Journaler) : Option Bool → Journaler
  | none => s
  | some true => s.flushComplete
  | some false => s.flushError

/-- A writer does something. -/
def withWriter (s : Journaler) (i : Nat) (f : PostgresWriter → PostgresWriter.Outcome) :
    Journaler :=
  match s.writers[i]? with
  | none => s
  | some w =>
    let (w, outcome) := f w
    { s with writers := s.writers.set i w }.resolve outcome

/-- `_flush_body`. -/
def flushBody (s : Journaler) : Journaler :=
  match s.cache.fetch with
  | none => s.flushError
  | some ([], cache) => { s with cache }.flushComplete
  | some (entry :: entries, cache) => match s.writer with
    | none => { s with cache }.flushError
    | some i =>
      { s with cache, task := .inserting i }.withWriter i (·.insertEntries (entry :: entries))

/-- `_flush`. -/
def flush (s : Journaler) : Journaler :=
  if s.connected then s.flushBody else { s with task := .waiting }

/-- The waits for the connection are over. -/
def notify (s : Journaler) : Journaler :=
  if s.task = .waiting then s.flushBody else s

/-- `configure_with` a new writer. -/
def configureWith (s : Journaler) (w : PostgresWriter) : Journaler :=
  if s.connected then s
  else
    { s with
      writers := s.writers ++ [w]
      writer := some s.writers.length
      connected := true
      notifying := s.notifying + 1 }.scheduleFlush

/-- `set_disconnected` in `close`. -/
def setDisconnected (s : Journaler) : Journaler :=
  { s with writer := none, connected := false }

/-- `_close_writer`. -/
def closeWriter (s : Journaler) (flushWriter : Bool) : Journaler :=
  match s.writer with
  | none => s
  | some i => s.withWriter i (·.close flushWriter)

/-- `close`, up to the Deferreds that it waits for. -/
def close (s : Journaler) (flushWriter : Bool) : Journaler :=
  { s with closing := s.closing + 1 }.closeWriter flushWriter

/-- The next `_current_target_index`; an index of 0 does not force anything. -/
def nextIndex (s : Journaler) (forceIndex : Option Nat) : Nat :=
  match forceIndex, s.currentTargetIndex with
  | some (n + 1), _ => n + 1
  | _, none => 0
  | _, some n => (n + 1) % s.possibleTargets

/-- `use_next_writer`, up to the Deferreds that it waits for; without targets it raises. -/
def useNextWriter (s : Journaler) (forceIndex : Option Nat) : Journaler :=
  if s.possibleTargets = 0 then s
  else
    { s with
      currentTargetIndex := some (s.nextIndex forceIndex)
      switching := s.switching + 1 }.closeWriter false

/-- `set_connection_strings` with so many that can be parsed. -/
def setConnectionStrings (s : Journaler) (n : Nat) : Journaler :=
  let s := { s with possibleTargets := s.possibleTargets + n }
  if s.writer.isNone then s.useNextWriter none else s

/-- The rest of `use_next_writer`, but for the `_schedule_flush` at its end. -/
def switchWriter (s : Journaler) : Journaler :=
  { s with switching := s.switching - 1 }.setDisconnected.configureWith
    PostgresWriter.new.initiate

/-- `reconnect_to_primary_writer`, where the old writer is not an `IJournalReader`. -/
def reconnectToPrimaryWriter (s : Journaler) : Journaler :=
  if s.currentTargetIndex = some 0 then s
  else (if s.writer.isSome then s.setDisconnected else s).useNextWriter (some 0)

/-- What happens: entries come, a flush is scheduled at the end of `use_next_writer`, the scheduled
flush runs, the journaler tells that it is connected, a writer is configured whose connection is
established or not, targets are added, `close`, `use_next_writer` and `reconnect_to_primary_writer`
are called or go on, the reactor makes a call that is due, and a writer does something. -/
inductive Event where
  | insertEntries (n : Nat)
  | scheduleFlush
  | flush
  | notify
  | configureWith (established : Bool)
  | setConnectionStrings (n : Nat)
  | close (flushWriter : Bool)
  | setDisconnected
  | useNextWriter (forceIndex : Option Nat)
  | reconnectToPrimaryWriter
  | switchWriter
  | dueUseNextWriter
  | dueClose
  | writer (i : Nat) (e : PostgresWriter.Event)
  deriving DecidableEq

def step (s : Journaler) : Event → Option Journaler
  | .insertEntries n => some (s.insertEntries n)
  | .scheduleFlush => some s.scheduleFlush
  | .flush => if s.task = .scheduled then some s.flush else none
  | .notify => if s.notifying = 0 then none else some { s with notifying := s.notifying - 1 }.notify
  | .configureWith established =>
    let w := PostgresWriter.new.initiate
    some (s.configureWith (if established then w.connectionEstablished.1 else w))
  | .setConnectionStrings n => some (s.setConnectionStrings n)
  | .close flushWriter => some (s.close flushWriter)
  | .setDisconnected =>
    if s.closing = 0 then none else some { s with closing := s.closing - 1 }.setDisconnected
  | .useNextWriter forceIndex => some (s.useNextWriter forceIndex)
  | .reconnectToPrimaryWriter => some s.reconnectToPrimaryWriter
  | .switchWriter => if s.switching = 0 then none else some s.switchWriter
  | .dueUseNextWriter =>
    if s.due = 0 then none else some ({ s with due := s.due - 1 }.useNextWriter none)
  | .dueClose => match s.dueCloses with
    | [] => none
    | i :: dueCloses => some ({ s with dueCloses }.withWriter i (·.close false))
  | .writer i e => match s.writers[i]? with
    | none => none
    | some w => (w.step e).map fun (w, outcome) =>
      { s with writers := s.writers.set i w }.resolve outcome

end Journaler
end Feat.Agencies.Journaling
