import Mathlib.Data.List.Sort
import Feat.Agencies.JournalMatched

/- The migration of a journal (`feat.agencies.journaler`: `Journaler.migrate_entries`, with a
   `SqliteWriter` as the reader).

   The entries of a fallback writer are read in batches and inserted in the journaler, which is
   connected to another writer by then; once `insert_entries` has called back as many are
   deleted. Journal entries are read in the order of their timestamps and deleted in that of
   timestamps and row ids; logs are read and deleted in the latter. Other entries come to the
   journaler meanwhile. A writer that calls back with success has stored what it was given. -/
namespace Feat.Agencies.Migration

open Transition

inductive Kind where
  | journal
  | log
  deriving DecidableEq

/-- A row of the table `entries`, or of `logs`: its timestamp and its other fields. -/
structure Row (D : Type) where
  rowid : Nat
  timestamp : Int
  fields : D
  deriving DecidableEq

/-- What is inserted in the journaler: entries that were read, or others. The row id is not read; it
    is kept to tell entries with equal fields apart. -/
inductive Item (D : Type) where
  | migrated (kind : Kind) (row : Row D)
  | other (fields : D)
  deriving DecidableEq

/-- What the fallback writer holds. -/
structure Content (D : Type) where
  rows : Kind → List (Row D)
  distinct : ∀ kind, ((rows kind).map Row.rowid).Nodup

/-- Where `migrate_entries` is: it waits for a query, for the callback of `insert_entries` or for
    the deletion. -/
inductive Phase (D : Type) where
  | reading (kind : Kind)
  | inserting (kind : Kind) (batch : List (Row D))
  | deleting (kind : Kind) (batch : List (Row D))
  | done

structure State (D : Type) where
  tables : Kind → List (Row D)
  journaler : Journaler (Item D)
  phase : Phase D

/-- What happens: the rows that were asked for come, something happens to the journaler, or rows are
    deleted. -/
inductive Event (D : Type) where
  | read (rows : List (Row D))
  | journaler (e : Journaler.Event D)
  | delete

variable {D : Type}

/-! ## The fallback -/

/-- The order of timestamps and row ids. -/
def Row.Before (r r' : Row D) : Prop :=
  r.timestamp < r'.timestamp ∨ r.timestamp = r'.timestamp ∧ r.rowid ≤ r'.rowid

instance (r r' : Row D) : Decidable (r.Before r') :=
  inferInstanceAs (Decidable (r.timestamp < r'.timestamp ∨
    r.timestamp = r'.timestamp ∧ r.rowid ≤ r'.rowid))

/-- `ORDER BY timestamp, rowid LIMIT ?`. -/
def top (n : Nat) (table : List (Row D)) : List (Row D) := (table.insertionSort Row.Before).take n

/-- How many entries are read at once. -/
def limit : Nat := 1000

/-- The answers the database may give to `get_bare_journal_entries`, with rows of one timestamp in
    any order, and to `get_log_entries`. -/
def Answers : Kind → List (Row D) → List (Row D) → Prop
  | .journal, table, rows => ∃ order : List (Row D), order.Perm table ∧
      order.Pairwise (·.timestamp ≤ ·.timestamp) ∧ rows = order.take limit
  | .log, table, rows => rows = top limit table

/-- `delete_top_journal_entries` and `delete_top_log_entries`. -/
def deleteTop (num : Nat) (table : List (Row D)) : List (Row D) :=
  table.filter fun r => r.rowid ∉ (top num table).map Row.rowid

/-! ## The journaler -/

/-- What happens to the journaler from elsewhere. -/
def otherEvent : Journaler.Event D → Journaler.Event (Item D)
  | .insert entries => .insert (entries.map .other)
  | .flush refuses => .flush refuses
  | .wake refuses => .wake refuses
  | .inserted ok => .inserted ok
  | .configureWith => .configureWith
  | .setDisconnected => .setDisconnected

/-- Whether a flush is completed, which calls back those who wait for it. -/
def completes {E : Type} (s : Journaler E) : Journaler.Event E → Bool
  | .inserted ok => ok
  | .flush _ => s.connected && s.use.cache.cache.isEmpty
  | .wake _ => s.use.cache.cache.isEmpty
  | _ => false

/-! ## The migration -/

namespace State
variable (s : State D)

/-- `migrate_entries`, with a journaler that was just made. -/
def start (content : Content D) : State D := ⟨content.rows, .new, .reading .journal⟩

/-- The loop goes on with what was read, or is left. -/
def received (kind : Kind) (rows : List (Row D)) : State D :=
  if rows.isEmpty then
    { s with phase := match kind with
      | .journal => .reading .log
      | .log => .done }
  else
    { s with
      journaler := s.journaler.insertEntries (rows.map (.migrated kind))
      phase := .inserting kind rows }

/-- A flush calls back. -/
def notified : State D :=
  match s.phase with
  | .inserting kind batch => { s with phase := .deleting kind batch }
  | _ => s

def deleted (kind : Kind) (num : Nat) : State D :=
  { s with
    tables := fun k => if k = kind then deleteTop num (s.tables kind) else s.tables k
    phase := .reading kind }

def step : Event D → Option (State D)
  | .read rows => match s.phase with
    | .reading kind => some (s.received kind rows)
    | _ => none
  | .journaler e => (s.journaler.step (otherEvent e)).map fun journaler =>
      let next := if completes s.journaler (otherEvent e) then s.notified else s
      { next with journaler }
  | .delete => match s.phase with
    | .deleting kind batch => some (s.deleted kind batch.length)
    | _ => none

/-- The rows that come are an answer of the database. -/
def Answered : Event D → Prop
  | .read rows => ∀ kind, s.phase = .reading kind → Answers kind (s.tables kind) rows
  | _ => True

end State

/-- The steps of the code, with any answers the database may give. -/
def Step : State D → Event D → State D → Prop := Guarded State.Answered (Defined State.step)

end Feat.Agencies.Migration
