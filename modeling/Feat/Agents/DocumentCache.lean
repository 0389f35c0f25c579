import Mathlib.Logic.Function.Basic
import Feat.Lib.Run

/- A document cache and the database it mirrors (`DocumentCache` of
   `feat.agents.base.cache`).

   A revision is the number of commits of its document so far. Every read and write of
   the cache is a request, which the database serves at one moment and which is
   responded at a later one, in any order. A commit leaves one notification for the
   listener of a view, or for each listener of the document when the cache has no view.
   A notification is delivered after the commit, those of one document in their order.

   A cache with a view starts with its view loaded. Registering and cancelling a
   listener take effect at once. A notification that is on its way is delivered even
   when its listener is cancelled. The patron's listener is not part of the model. -/
namespace Feat.Agents.DocumentCache

variable {Id : Type} [DecidableEq Id]

/-- What a request asks: `add` is the read of `add_document`, which registers a listener when it
succeeds, `refresh` the read of `_refresh_document` from elsewhere. -/
inductive Kind where
  | add
  | refresh
  | save (base : Option Nat)
  | delete (base : Nat)
  deriving DecidableEq

inductive Answer where
  | found (rev : Nat)
  | notFound
  | conflict
  deriving DecidableEq

structure Request (Id : Type) where
  doc : Id
  kind : Kind
  answer : Option Answer
  deriving DecidableEq

structure Notification (Id : Type) where
  doc : Id
  rev : Nat
  deleted : Bool
  deriving DecidableEq

/-- The database, the cache and what is on its way between them. -/
structure State (Id : Type) where
  /-- There is a `view_factory`. -/
  view : Bool
  rev : Id → Nat
  live : Id → Bool
  documents : Id → Option Nat
  /-- The listeners registered for single documents. -/
  listeners : Id → Nat
  requests : List (Request Id)
  notifications : List (Notification Id)
  /-- Calls of `save_document` that failed although the document was saved. -/
  failedSaves : Nat

inductive Event (Id : Type) where
  | add (doc : Id)
  | refresh (doc : Id)
  | forget (doc : Id)
  | save (doc : Id) (base : Option Nat)
  | delete (doc : Id) (base : Nat)
  | written (doc : Id) (deleted : Bool)
  | serve (i : Nat)
  | respond (i : Nat)
  | notify (i : Nat)

namespace State

/-- What a read answers. -/
def read (s : State Id) (d : Id) : Answer := if s.live d then .found (s.rev d) else .notFound

/-- A revision is committed and its listeners are told. -/
def commit (s : State Id) (d : Id) (deleted : Bool) : State Id :=
  let copies := if s.view then 1 else s.listeners d
  { s with
    rev := Function.update s.rev d (s.rev d + 1)
    live := Function.update s.live d !deleted
    notifications := s.notifications ++ List.replicate copies ⟨d, s.rev d + 1, deleted⟩ }

def ask (s : State Id) (d : Id) (kind : Kind) : State Id :=
  { s with requests := s.requests ++ [⟨d, kind, none⟩] }

/-- The database performs a request. -/
def perform (s : State Id) (d : Id) : Kind → Answer × State Id
  | .add | .refresh => (s.read d, s)
  | .save base =>
    if base = (if s.live d then some (s.rev d) else none) then
      (.found (s.rev d + 1), s.commit d false)
    else (.conflict, s)
  | .delete base =>
    if s.live d then
      if base = s.rev d then (.found (s.rev d + 1), s.commit d true) else (.conflict, s)
    else (.notFound, s)

/-- `_store_doc`. -/
def storeDoc (s : State Id) (d : Id) (rev : Nat) : State Id :=
  { s with documents := Function.update s.documents d (some rev) }

/-- `_delete_doc`. -/
def deleteDoc (s : State Id) (d : Id) : State Id :=
  { s with documents := Function.update s.documents d none }

/-- `register_change_listener` for a document. -/
def register (s : State Id) (d : Id) : State Id :=
  { s with listeners := Function.update s.listeners d (s.listeners d + 1) }

/-- The callbacks of a request. `register_listener_if_necessary` asks for an attribute that the
cache does not have. -/
def respond (s : State Id) (d : Id) : Kind → Answer → State Id
  | .add, .found rev => if s.view then s.storeDoc d rev else (s.storeDoc d rev).register d
  | .refresh, .found rev => s.storeDoc d rev
  | .add, .notFound | .refresh, .notFound => s.deleteDoc d
  | .save _, .found rev =>
    if s.view then s.storeDoc d rev else { s with failedSaves := s.failedSaves + 1 }
  | _, _ => s

/-- `_document_changed`. -/
def documentChanged (s : State Id) (n : Notification Id) : State Id :=
  if n.deleted then s.deleteDoc n.doc
  else if s.documents n.doc = some n.rev then s
  else s.ask n.doc .refresh

def step (s : State Id) : Event Id → Option (State Id)
  | .add d => some (if s.documents d = none then s.ask d .add else s)
  | .refresh d => some (s.ask d .refresh)
  | .forget d =>
    some (if s.view then s.deleteDoc d
      else { s.deleteDoc d with listeners := Function.update s.listeners d 0 })
  | .save d base => some (s.ask d (.save base))
  | .delete d base => some (s.ask d (.delete base))
  | .written d deleted => if deleted && !s.live d then none else some (s.commit d deleted)
  | .serve i =>
    match s.requests[i]? with
    | some ⟨d, kind, none⟩ =>
      let (answer, s') := s.perform d kind
      some { s' with requests := s.requests.set i ⟨d, kind, some answer⟩ }
    | _ => none
  | .respond i =>
    match s.requests[i]? with
    | some ⟨d, kind, some answer⟩ =>
      some (respond { s with requests := s.requests.eraseIdx i } d kind answer)
    | _ => none
  | .notify i =>
    match s.notifications[i]? with
    | some n =>
      if (s.notifications.take i).any (·.doc = n.doc) then none
      else some (documentChanged { s with notifications := s.notifications.eraseIdx i } n)
    | none => none

/-- A cache before it is asked for anything: one with a view holds some of the documents. -/
def start (view : Bool) (rev : Id → Nat) (live loaded : Id → Bool) : State Id where
  view := view
  rev := rev
  live := live
  documents d := if view && live d && loaded d then some (rev d) else none
  listeners _ := 0
  requests := []
  notifications := []
  failedSaves := 0

/-! ## Convergence -/

/-- What is asked of a cache: no save that succeeded is reported as failed, and when nothing is on
its way each document that is held is not deleted, has its latest revision and, without a view, one
listener. -/
structure Converged (s : State Id) : Prop where
  saves : s.failedSaves = 0
  held : s.requests = [] → s.notifications = [] → ∀ d rev, s.documents d = some rev →
    s.live d = true ∧ rev = s.rev d ∧ (s.view = false → s.listeners d = 1)

/-- The response of a request leaves the document with its latest revision, or without an entry. -/
def Brings (s : State Id) (q : Request Id) : Prop :=
  match q.kind, q.answer with
  | .add, none | .refresh, none | .add, some .notFound | .refresh, some .notFound => True
  | .add, some (.found rev) | .refresh, some (.found rev) =>
    s.live q.doc = true ∧ rev = s.rev q.doc
  | .save _, some (.found rev) =>
    s.view = true ∧ s.live q.doc = true ∧ rev = s.rev q.doc
  | _, _ => False

/-- The latest revision of a document is still told of, or on its way. -/
def Owed (s : State Id) (d : Id) : Prop :=
  (∃ n ∈ s.notifications, n.doc = d ∧ n.rev = s.rev d) ∨ ∃ q ∈ s.requests, q.doc = d ∧ Brings s q

/-- A revision of a document may be stored. -/
def Storable (s : State Id) (d : Id) (rev : Nat) : Prop :=
  s.live d = true ∧ rev = s.rev d ∨ Owed s d

/-- The response to a request does not overtake what the cache needs: it stores a revision that is
the latest one or is followed by another, and without a view a document gets its listener once and
only by `add_document`. -/
def Harmless (s : State Id) (d : Id) : Kind → Answer → Prop
  | .add, .found rev => Storable s d rev ∧ (s.view = true ∨ s.listeners d = 0)
  | .refresh, .found rev => Storable s d rev ∧ (s.view = true ∨ s.listeners d = 1)
  | .save _, .found rev => Storable s d rev ∧ s.view = true
  | _, _ => True

/-- The condition of a step: a response is harmless among the other requests. -/
def Timely (s : State Id) : Event Id → Prop
  | .respond i =>
    ∀ q ∈ s.requests[i]?, ∀ answer ∈ q.answer,
      Harmless { s with requests := s.requests.eraseIdx i } q.doc q.kind answer
  | _ => True

end State
end Feat.Agents.DocumentCache
