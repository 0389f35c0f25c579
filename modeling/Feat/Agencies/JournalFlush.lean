import Feat.Agencies.EntriesCache
import Feat.Lib.Run

/- The users of the cache of journal entries (`feat.agencies.journaler`: `Journaler`,
   `BrokerProxyWriter`, `SqliteWriter` and `PostgresWriter`, as far as the cache goes).

   The journaler has one flush at a time by the handle of its task. The writers flush
   from a loop (`Flusher`): a call of `_flush_next` waits for the connection, then for
   its turn, and a flush that succeeds calls it again. Turns are given by a semaphore,
   and to the flushes of a `PostgresWriter` by its pool, which has one connection. A
   flush that has its turn runs as a step of its own, so do the calls that are due
   again; where the source runs them at once, that is one of the orders.

   The thread of a `SqliteWriter` takes the entries that are left out of the cache and
   then stores them in it; entries can come in between. -/
namespace Feat.Agencies
open Transition

/-! ## The journaler -/

/-- Where the flush of a journaler is that its `_flush_task` stands for. -/
inductive FlushTask where
  | none
  | scheduled
  | waiting
  | inserting
  deriving DecidableEq

/-- `Journaler`. -/
structure Journaler (E : Type) where
  use : CacheUse E
  connected : Bool
  writer : Bool
  task : FlushTask

namespace Journaler
variable {E : Type}

def new : Journaler E := ⟨.new, false, false, .none⟩

/-- `_schedule_flush`. -/
def scheduleFlush (s : Journaler E) : Journaler E :=
  if s.connected ∧ s.task = .none then { s with task := .scheduled } else s

/-- `insert_entries`, and `insert_entry` with one entry. -/
def insertEntries (s : Journaler E) (entries : List E) : Journaler E :=
  { s with use := s.use.appendAll entries }.scheduleFlush

/-- `_flush_error`. -/
def flushError (s : Journaler E) : Journaler E :=
  match s.use.cache.rollback with
  | some _ =>
    { s with use := s.use.rollback, writer := false, connected := false, task := .none }
  | none => { s with use := s.use.rollback }

/-- `_flush_complete`. -/
def flushComplete (s : Journaler E) : Journaler E :=
  let s := if s.use.cache.isLocked then { s with use := s.use.commit } else s
  let s := { s with task := .none }
  if s.use.cache.cache.length > 0 then s.scheduleFlush else s

/-- `_flush_body`, where the writer may refuse the entries at once. -/
def flushBody (s : Journaler E) (refuses : Bool) : Journaler E :=
  match s.use.fetch with
  | (use, none) => { s with use }.flushError
  | (use, some []) => { s with use }.flushComplete
  | (use, some (entry :: entries)) =>
    if s.writer ∧ ¬ refuses then
      { s with use := use.start (entry :: entries), task := .inserting }
    else { s with use }.flushError

/-- `_flush`. -/
def flush (s : Journaler E) (refuses : Bool) : Journaler E :=
  if s.connected then s.flushBody refuses else { s with task := .waiting }

/-- `configure_with`. -/
def configureWith (s : Journaler E) : Journaler E :=
  if s.connected then s else { s with writer := true, connected := true }.scheduleFlush

/-- `set_disconnected` in `close`; `reconnect_to_primary_writer` does the same. -/
def setDisconnected (s : Journaler E) : Journaler E :=
  { s with writer := false, connected := false }

/-- What happens: entries come (`use_next_writer` schedules a flush without), the scheduled flush
runs, a flush that waits for the connection goes on, the writer is done, a writer is connected or
closed. -/
inductive Event (E : Type) where
  | insert (entries : List E)
  | flush (refuses : Bool)
  | wake (refuses : Bool)
  | inserted (ok : Bool)
  | configureWith
  | setDisconnected

def step (s : Journaler E) : Event E → Option (Journaler E)
  | .insert entries => some (s.insertEntries entries)
  | .flush refuses => if s.task = .scheduled then some (s.flush refuses) else none
  | .wake refuses => if s.task = .waiting then some (s.flushBody refuses) else none
  | .inserted ok =>
    if s.task = .inserting then some (if ok then s.flushComplete else s.flushError) else none
  | .configureWith => some s.configureWith
  | .setDisconnected => some s.setDisconnected

end Journaler

/-! ## Writers -/

/-- Where the flush is that has the turn. -/
inductive FlushPhase (E : Type) where
  | idle
  | called
  | inFlight
  | storing (rest : List E)
  | finishing

/-- The calls of `_flush_next` of a writer: those that wait for the connection, those that are due
again, the flushes that wait for their turn and the one that has it. -/
structure Flusher (E : Type) where
  use : CacheUse E
  connected : Bool
  waiting : Nat
  again : Nat
  queue : Nat
  phase : FlushPhase E

/-- What becomes of entries between the fetch and the insertion: the insertion is started, the
entries are rolled back, or an exception leaves the flush. -/
inductive Start where
  | started
  | refused
  | raises

/-- What all writers have in common: entries come, `_flush_next` is called, goes on with its wait over,
has its wait cancelled, or is due again. -/
inductive FlushEvent (E : Type) where
  | insert (entries : List E)
  | flush
  | wake
  | cancel
  | again

namespace Flusher
variable {E : Type}

def new : Flusher E := ⟨.new, false, 0, 0, 0, .idle⟩

/-- `_flush_next` in the connected state: without entries nothing is to do, else a flush asks for
its turn. -/
def flushBody (f : Flusher E) : Flusher E :=
  if f.use.cache.cache.isEmpty then f
  else match f.phase with
    | .idle => { f with phase := .called }
    | _ => { f with queue := f.queue + 1 }

/-- `_flush_next`. -/
def flushNext (f : Flusher E) : Flusher E :=
  if f.connected then f.flushBody else { f with waiting := f.waiting + 1 }

/-- The turn goes to the next flush. -/
def release (f : Flusher E) : Flusher E :=
  if f.queue = 0 then { f with phase := .idle }
  else { f with queue := f.queue - 1, phase := .called }

/-- A flush that succeeds calls `_flush_next` again. -/
def succeeded (f : Flusher E) : Flusher E := { f with again := f.again + 1 }.release

/-- A flush up to the insertion. -/
def begin (f : Flusher E) (start : List E → Start) : Flusher E :=
  match f.use.fetch with
  | (use, none) => { f with use }.release
  | (use, some []) => { f with use }.succeeded
  | (use, some (entry :: entries)) => match start (entry :: entries) with
    | .started => { f with use := use.start (entry :: entries), phase := .inFlight }
    | .refused => { f with use := use.rollback }.succeeded
    | .raises => { f with use }.release

def step (f : Flusher E) : FlushEvent E → Option (Flusher E)
  | .insert entries => some { f with use := f.use.appendAll entries }.flushNext
  | .flush => some f.flushNext
  | .wake => if f.waiting = 0 then none else some { f with waiting := f.waiting - 1 }.flushBody
  | .cancel => some { f with waiting := 0 }
  | .again => if f.again = 0 then none else some { f with again := f.again - 1 }.flushNext

end Flusher

/-- `BrokerProxyWriter`; of the journaler it is known whether the other side is still there. -/
structure BrokerProxyWriter (E : Type) where
  flusher : Flusher E
  journaler : Option Bool

namespace BrokerProxyWriter
variable {E : Type}

def new : BrokerProxyWriter E := ⟨.new, none⟩

/-- `_push_entries`: a call of `None` raises, a dead reference is handled. -/
def pushEntries (s : BrokerProxyWriter E) : BrokerProxyWriter E :=
  { s with flusher := s.flusher.begin fun _ =>
      match s.journaler with
      | some true => .started
      | some false => .refused
      | none => .raises }

/-- What happens: the common events, the journaler is known, its side goes away, the connection is
lost or the writer closed, a flush runs, the remote call succeeds or not. -/
inductive Event (E : Type) where
  | common (e : FlushEvent E)
  | initiate
  | gone
  | onDisconnect
  | pushEntries
  | pushed (ok : Bool)

def step (s : BrokerProxyWriter E) : Event E → Option (BrokerProxyWriter E)
  | .common e => (s.flusher.step e).map fun flusher => { s with flusher }
  | .initiate => some ⟨{ s.flusher with connected := true }, some true⟩
  | .gone => some { s with journaler := s.journaler.map fun _ => false }
  | .onDisconnect => some ⟨{ s.flusher with connected := false }, none⟩
  | .pushEntries => match s.flusher.phase with
    | .called => some s.pushEntries
    | _ => none
  | .pushed ok => match s.flusher.phase with
    | .inFlight =>
      let use := if ok then s.flusher.use.commit else s.flusher.use.rollback
      some { s with flusher := { s.flusher with use }.succeeded }
    | _ => none

end BrokerProxyWriter

/-- `SqliteWriter`. -/
structure SqliteWriter (E : Type) where
  flusher : Flusher E

namespace SqliteWriter
variable {E : Type}

def new : SqliteWriter E := ⟨.new⟩

/-- `self._cache[self._fetched:]` in `commit`. -/
def slice (f : Flusher E) : Flusher E :=
  match f.use.cache.fetched with
  | some n => { f with phase := .storing (f.use.cache.cache.drop n) }
  | none => { f with use := f.use.commit, phase := .finishing }

/-- `self._cache = …` in `commit`, and its end: what is no more in the cache was removed. -/
def store (f : Flusher E) (rest : List E) : Flusher E :=
  let cache := f.use.cache.cache
  let n := f.use.cache.fetched.getD 0
  { f with
    use := { f.use with
      cache := ⟨rest, none⟩
      given := none
      commits := f.use.commits ++
        [(f.use.given.getD [], cache.take n ++ cache.drop (n + rest.length))] }
    phase := .finishing }

/-- What happens: the common events, the writer is initiated or closed, the transaction of a flush
does not run or runs in the thread, it fails, it commits in two steps, and the flush is over. -/
inductive Event (E : Type) where
  | common (e : FlushEvent E)
  | initiatedOk
  | close
  | notRun
  | transaction
  | failed
  | slice
  | store
  | finished (ok : Bool)

def step (s : SqliteWriter E) : Event E → Option (SqliteWriter E)
  | .common e => (s.flusher.step e).map SqliteWriter.mk
  | .initiatedOk => some ⟨{ s.flusher with connected := true }.flushNext⟩
  | .close => some ⟨{ s.flusher with connected := false }⟩
  | .notRun => match s.flusher.phase with
    | .called => some ⟨s.flusher.release⟩
    | _ => none
  | .transaction => match s.flusher.phase with
    | .called => some ⟨s.flusher.begin fun _ => .started⟩
    | _ => none
  | .failed => match s.flusher.phase with
    | .inFlight => some ⟨{ s.flusher with use := s.flusher.use.rollback, phase := .finishing }⟩
    | _ => none
  | .slice => match s.flusher.phase with
    | .inFlight => some ⟨slice s.flusher⟩
    | _ => none
  | .store => match s.flusher.phase with
    | .storing rest => some ⟨store s.flusher rest⟩
    | _ => none
  | .finished ok => match s.flusher.phase with
    | .finishing => some ⟨if ok then s.flusher.succeeded else s.flusher.release⟩
    | _ => none

end SqliteWriter

/-- `PostgresWriter`. -/
structure PostgresWriter (E : Type) where
  flusher : Flusher E

namespace PostgresWriter
variable {E : Type}

def new : PostgresWriter E := ⟨.new⟩

/-- `_perform_inserts`: the entry types are looked up before there are callbacks that would roll
back. -/
def performInserts (hasType : E → Bool) (f : Flusher E) : Flusher E :=
  f.begin fun entries => if entries.all hasType then .started else .raises

/-- What happens: the common events, the connection is established or the writer closed, the
interaction of a flush does not run or runs, its inserts succeed or not, and the flush is over. -/
inductive Event (E : Type) where
  | common (e : FlushEvent E)
  | connectionEstablished
  | close
  | notRun
  | performInserts
  | inserted (ok : Bool)
  | finished (ok : Bool)

def step (hasType : E → Bool) (s : PostgresWriter E) : Event E → Option (PostgresWriter E)
  | .common e => (s.flusher.step e).map PostgresWriter.mk
  | .connectionEstablished => some ⟨{ s.flusher with connected := true }.flushNext⟩
  | .close => some ⟨{ s.flusher with connected := false }⟩
  | .notRun => match s.flusher.phase with
    | .called => some ⟨s.flusher.release⟩
    | _ => none
  | .performInserts => match s.flusher.phase with
    | .called => some ⟨performInserts hasType s.flusher⟩
    | _ => none
  | .inserted ok => match s.flusher.phase with
    | .inFlight =>
      let use := if ok then s.flusher.use.commit else s.flusher.use.rollback
      some ⟨{ s.flusher with use, phase := .finishing }⟩
    | _ => none
  | .finished ok => match s.flusher.phase with
    | .finishing => some ⟨if ok then s.flusher.succeeded else s.flusher.release⟩
    | _ => none

end PostgresWriter
end Feat.Agencies
