import Mathlib.Data.List.Basic
import Feat.Lib.Run

/- Updates of documents that are queued in the descriptor (`PersistentUpdater` and
   `DescriptorQueueHolder` of `feat.agents.base.cache`).

   Each call of `update` puts an entry into the queue by an update of the descriptor.
   A loop takes the entries one by one: it lets the handler work on the document of the
   cache, saves or deletes what it returns, fires the waiter of the entry and removes the
   entry by another update of the descriptor. A conflict, or a document that is not
   found, makes it refresh the document and call the handler again.

   Entries are told apart by their ids, which are counted in the order of the calls. What
   the handlers do, whether the cache has a document, and how the database answers are
   free, so the documents are of any type. A waiter is fired by `call_next`, which runs
   before any answer that is asked for later: it fires at once. The agent is not started
   again, and enters with an empty queue. -/
namespace Feat.Agents.PersistentUpdater

variable {Doc : Type}

/-- What a call changes in the database. -/
inductive Effect (Doc : Type) where
  | saved (doc : Doc)
  | deleted
  deriving DecidableEq

/-- What a waiter is fired with: the document that was saved or deleted, or the one the handler
resigned from. -/
inductive Result (Doc : Type) where
  | performed (effect : Effect Doc)
  | resigned
  deriving DecidableEq

def Result.effect : Result Doc → Option (Effect Doc)
  | .performed effect => some effect
  | .resigned => none

/-- What a handler does: it returns a document, raises `ResignFromModifying` or `DeleteDocument`,
or raises something else. -/
inductive Verdict (Doc : Type) where
  | returns (doc : Doc)
  | resigns
  | deletes
  | raises
  deriving DecidableEq

inductive Error where
  | conflict
  | notFound
  | other
  deriving DecidableEq

/-- The answer to a save or a delete. One that fails may have been committed. -/
inductive Answer where
  | done
  | fails (error : Error) (committed : Bool)
  deriving DecidableEq

def Answer.committed : Answer → Bool
  | .done => true
  | .fails _ committed => committed

/-- The answer is success, or a refusal that the updater handles. -/
def Answer.Handled : Answer → Prop
  | .done => True
  | .fails error committed => error ≠ .other ∧ committed = false

/-- A chain of callbacks that waits for the cache. -/
inductive Chain (Doc : Type) where
  | calling (item : Nat) (effect : Effect Doc)
  | answered (item : Nat) (effect : Effect Doc) (answer : Answer)
  | refreshing (item : Nat)
  deriving DecidableEq

/-- An update of the descriptor. A removal is waited for by the chain of its entry, which handles a
failure only where it called the cache (`called`). -/
inductive Update where
  | append (item : Nat)
  | remove (item : Nat) (called : Bool)
  deriving DecidableEq

structure State (Doc : Type) where
  /-- The queue in the descriptor. -/
  entries : List Nat
  /-- The updates of the descriptor that are not saved yet. -/
  updates : List Update
  prefetched : List Nat
  working : Bool
  /-- Calls of `_startup` that are due. -/
  scheduled : Nat
  chains : List (Chain Doc)
  /-- The entries that are waited for. -/
  waiting : List Nat
  /-- Calls of `update` so far. -/
  issued : Nat
  /-- The entries that were put into the queue. -/
  enqueued : List Nat
  /-- What was committed to the database. -/
  commits : List (Nat × Effect Doc)
  /-- The waiters that were fired. -/
  fired : List (Nat × Result Doc)

/-- What happens. `found` tells whether the cache has the document, `verdict` what the handler does
with it, if one is called. -/
inductive Event (Doc : Type) where
  | update
  | startup
  | updated
  | updateFails (error : Error)
  | call (found : Bool) (verdict : Verdict Doc)
  | serve (i : Nat) (answer : Answer)
  | respond (i : Nat)
  | refreshed (i : Nat) (found : Bool) (verdict : Verdict Doc)
  | refreshFails (i : Nat)

namespace State

def startup (s : State Doc) : State Doc :=
  if s.working then s else { s with working := true, scheduled := s.scheduled + 1 }

/-- A chain ends: `_set_working` and, when it did not fail, `startup`. -/
def finish (s : State Doc) : State Doc := startup { s with working := false }

def fail (s : State Doc) : State Doc := { s with working := false }

/-- `callback` of the notifier. -/
def callback (s : State Doc) (item : Nat) (result : Result Doc) : State Doc :=
  if item ∈ s.waiting then
    { s with waiting := s.waiting.erase item, fired := s.fired ++ [(item, result)] }
  else s

/-- `on_confirm`. -/
def onConfirm (s : State Doc) (item : Nat) (called : Bool) : State Doc :=
  { s with
    prefetched := s.prefetched.erase item
    updates := s.updates ++ [.remove item called] }

def updateCallback (s : State Doc) (item : Nat) (result : Result Doc) (called : Bool) :
    State Doc :=
  (s.callback item result).onConfirm item called

def wait (s : State Doc) (chain : Chain Doc) : State Doc := { s with chains := s.chains ++ [chain] }

/-- `_update_errback`. -/
def updateErrback (s : State Doc) (item : Nat) : Error → State Doc
  | .conflict | .notFound => s.wait (.refreshing item)
  | .other => s.fail

/-- `_get_document_callback`. A deletion without a document is an error of the cache. -/
def getDocumentCallback (s : State Doc) (item : Nat) (found : Bool) : Verdict Doc → State Doc
  | .returns doc => s.wait (.calling item (.saved doc))
  | .deletes => if found then s.wait (.calling item .deleted) else s.fail
  | .resigns => s.updateCallback item .resigned false
  | .raises => s.fail

/-- `next`: the first entry that was not handed out. -/
def next (s : State Doc) : Option Nat := s.entries.find? (· ∉ s.prefetched)

/-- `_startup`. -/
def processNext (s : State Doc) (found : Bool) (verdict : Verdict Doc) : State Doc :=
  match s.next with
  | none => { s with working := false }
  | some item =>
    getDocumentCallback { s with prefetched := s.prefetched ++ [item] } item found verdict

def step (s : State Doc) : Event Doc → Option (State Doc)
  | .update =>
    some { s with issued := s.issued + 1, updates := s.updates ++ [.append s.issued] }
  | .startup => some s.startup
  | .updated =>
    match s.updates with
    | [] => none
    | .append item :: rest =>
      let s' := { s with
        updates := rest
        entries := s.entries ++ [item]
        enqueued := s.enqueued ++ [item] }.startup
      some { s' with waiting := s'.waiting ++ [item] }
    | .remove item _ :: rest =>
      some (finish { s with updates := rest, entries := s.entries.filter (· ≠ item) })
  | .updateFails error =>
    match s.updates with
    | [] => none
    | .append _ :: rest => some { s with updates := rest }
    | .remove item called :: rest =>
      let s' := { s with updates := rest }
      some (if called then s'.updateErrback item error else s'.fail)
  | .call found verdict =>
    match s.scheduled with
    | 0 => none
    | n + 1 => some (processNext { s with scheduled := n } found verdict)
  | .serve i answer =>
    match s.chains[i]? with
    | some (.calling item effect) =>
      some { s with
        chains := s.chains.set i (.answered item effect answer)
        commits := if answer.committed then s.commits ++ [(item, effect)] else s.commits }
    | _ => none
  | .respond i =>
    match s.chains[i]? with
    | some (.answered item effect answer) =>
      let s' := { s with chains := s.chains.eraseIdx i }
      match answer with
      | .done => some (s'.updateCallback item (.performed effect) true)
      | .fails error _ => some (s'.updateErrback item error)
    | _ => none
  | .refreshed i found verdict =>
    match s.chains[i]? with
    | some (.refreshing item) =>
      some (getDocumentCallback { s with chains := s.chains.eraseIdx i } item found verdict)
    | _ => none
  | .refreshFails i =>
    match s.chains[i]? with
    | some (.refreshing _) => some (fail { s with chains := s.chains.eraseIdx i })
    | _ => none

def start : State Doc where
  entries := []
  updates := []
  prefetched := []
  working := false
  scheduled := 0
  chains := []
  waiting := []
  issued := 0
  enqueued := []
  commits := []
  fired := []

/-! ## Exactly once, in order -/

/-- The effects that the waiters were fired with. -/
def reported (s : State Doc) : List (Nat × Effect Doc) :=
  s.fired.filterMap fun (item, result) => result.effect.map (item, ·)

/-- Nothing is on its way. -/
def Quiet (s : State Doc) : Prop := s.updates = [] ∧ s.scheduled = 0 ∧ s.chains = []

/-- What is asked of the updates. -/
structure Performed (s : State Doc) : Prop where
  /-- The operations are put into the queue in the order of the calls. -/
  ordered : s.enqueued.Pairwise (· < ·)
  /-- Their effects are committed in that order, each at most once. -/
  committed : (s.commits.map Prod.fst).Sublist s.enqueued
  /-- The waiters are fired in that order, none left out and each once. -/
  fired : s.fired.map Prod.fst <+: s.enqueued
  /-- They are fired with what was committed, and with nothing else. -/
  outcome : s.reported <+: s.commits
  /-- An entry leaves the queue after its waiter is fired. -/
  leaves : ∀ item ∈ s.enqueued, item ∉ s.entries → item ∈ s.fired.map Prod.fst
  /-- When nothing is on its way, every operation was performed. -/
  complete : s.Quiet → s.fired.map Prod.fst = s.enqueued ∧ s.reported = s.commits ∧ s.entries = []

/-- A handler resigns, orders the deletion of a document there is, or returns. -/
def Sound (found : Bool) (verdict : Verdict Doc) : Prop :=
  verdict ≠ .raises ∧ (verdict = .deletes → found = true)

/-- The condition of a step: handlers raise nothing else, the calls to the cache fail with a
conflict or because there is no document, and the removals of entries are saved. -/
def Smooth (s : State Doc) : Event Doc → Prop
  | .call found verdict => s.next ≠ none → Sound found verdict
  | .refreshed _ found verdict => Sound found verdict
  | .serve _ answer => answer.Handled
  | .refreshFails _ => False
  | .updateFails _ =>
    match s.updates with
    | .remove _ _ :: _ => False
    | _ => True
  | _ => True

end State
end Feat.Agents.PersistentUpdater
