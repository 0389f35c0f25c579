import Feat.Lib.Hash
import Feat.Database.Revision

/- A connection to the database and its change listeners (`feat.database.client`:
   `Connection.save_document`, `delete_document`, `get_document`,
   `_lock_notifications`, `_unlock_notifications`, `_update_id_and_rev`,
   `_notice_doc_revision`, `RevisionAnalytic`).

   The code runs between reactor events, and user code runs inside it: a callback
   may start saves, the database may answer them at once, and unlocking may call
   further callbacks. `stack` is the code that is still to run, a frame for each
   function that is active, and `step .run` runs the first of them on. All other
   events wait for the stack to be empty, except for what the database does on
   its own.

   What a callback does is a function of everything delivered so far. Of a
   document the model keeps its representation (`IDocument` or `dict`) and the
   documents registered in `links.to_save`. The history of the database and the
   notifications that have arrived and been delivered are kept for the record;
   no code reads them. -/
namespace Feat.Database
open Hash

structure Notification where
  docId : String
  rev : Revision
  deleted : Bool
  deriving DecidableEq

/-- A revision the database has committed. -/
structure Commit where
  response : Response
  deleted : Bool
  own : Bool
  deriving DecidableEq

/-- When the database answers a write: before the call returns, or later. An answer of `none`
is a failure, also of the serializer. -/
inductive Immediate where
  | now (answer : Option Response)
  | later
  deriving DecidableEq

/-- A call of `save_document` or `delete_document`. `links` are the documents to be saved with
it, for a delete none. -/
inductive Saving where
  | mk (isDocument deletes : Bool) (reply : Immediate) (links : List Saving)

/-- A write the database has been asked for. -/
structure Writing where
  isDocument : Bool
  deletes : Bool
  links : List Saving

/-- A write that waits for its answer, and the saves that wait for it, innermost first, with
the links each has still to save. `answer` is there once the database has made it. -/
structure Call where
  writing : Writing
  answer : Option (Option Response)
  outer : List (List Saving)

/-- What a callback did: the writes it started, and whether it raised in the end. -/
structure Reaction where
  writes : List Saving
  raises : Bool

/-- A function that is active. -/
inductive Frame where
  -- `save_document` or `delete_document` is entered
  | enter (saving : Saving) (outer : List (List Saving))
  -- the answer of the database is at hand
  | answered (writing : Writing) (answer : Option Response) (outer : List (List Saving))
  -- a write or a linked save of the first of `saves` ended
  | resume (ok : Bool) (saves : List (List Saving))
  -- the loop of `_unlock_notifications`
  | unlocking (callbacks : List Nat)
  -- the loop of `RevisionAnalytic.unlocked`
  | unlocked (listener : Nat)
  -- a callback
  | callback (reaction : Reaction)

/-- A notification handed to the callback of a listener. -/
structure Delivery where
  listener : Nat
  notification : Notification
  ownChange : Bool
  deriving DecidableEq

structure Connection where
  updateLockCounter : Nat
  unlockedCallbacks : List Nat
  knownRevisions : Dict String Revision
  buffer : Nat → List Notification
  calls : List Call
  stack : List Frame
  committed : List Commit
  received : List Response
  arrived : List (Nat × Notification)
  delivered : List Delivery

/-- A connection as it is created. -/
def Connection.new : Connection := ⟨0, [], ∅, fun _ => [], [], [], [], [], [], []⟩

namespace Connection

/-- `_notice_doc_revision`. -/
def noticeDocRevision (s : Connection) (response : Response) : Connection :=
  { s with knownRevisions := s.knownRevisions.insert response.id response.rev
           received := response :: s.received }

/-- `_update_id_and_rev`. The revision of a `dict` is not noticed. -/
def updateIdAndRev (s : Connection) (isDocument : Bool) (response : Response) : Connection :=
  if isDocument then s.noticeDocRevision response else s

/-- The database commits a write of this connection, or fails it. -/
def commitOwn (s : Connection) (deletes : Bool) (answer : Option Response) : Connection :=
  { s with committed := answer.toList.map (fun response => ⟨response, deletes, true⟩) ++ s.committed }

/-- The verdict of `process_change`. -/
def ownChange (s : Connection) (n : Notification) : Bool :=
  match s.knownRevisions.lookup n.docId with
  | none => false
  | some last => n.rev.index < last.index || (last.index = n.rev.index && last.hash = n.rev.hash)

section Code
variable (o : HashOrder Nat) (react : List Delivery → Reaction)

/-- `process_change`: the callback of the listener is called. -/
def processChange (s : Connection) (listener : Nat) (n : Notification) (rest : List Frame) :
    Connection :=
  let delivered := s.delivered ++ [⟨listener, n, s.ownChange n⟩]
  { s with delivered := delivered, stack := .callback (react delivered) :: rest }

/-- `_unlock_notifications` at the end of a save: `outer` goes on when it is done. -/
def unlockNotifications (s : Connection) (ok : Bool) (outer : List (List Saving))
    (rest : List Frame) : Connection :=
  if s.updateLockCounter - 1 = 0 then
    { s with updateLockCounter := s.updateLockCounter - 1
             unlockedCallbacks := []
             stack := .unlocking (o.arrange s.unlockedCallbacks) :: .resume ok outer :: rest }
  else
    { s with updateLockCounter := s.updateLockCounter - 1, stack := .resume ok outer :: rest }

/-- A write is started: the lock is taken and the database asked. -/
def enter (s : Connection) : Saving → List (List Saving) → List Frame → Connection
  | .mk isDocument deletes reply links, outer, rest =>
    let s := { s with updateLockCounter := s.updateLockCounter + 1 }
    match reply with
    | .later => { s with calls := s.calls ++ [⟨⟨isDocument, deletes, links⟩, none, outer⟩], stack := rest }
    | .now answer =>
      { s.commitOwn deletes answer with
        stack := .answered ⟨isDocument, deletes, links⟩ answer outer :: rest }

/-- An exception leaves the loops it was raised in and ends up in the save that unlocked. -/
def unwind : List Frame → List Frame
  | .unlocking _ :: rest => unwind rest
  | .unlocked _ :: rest => unwind rest
  | .resume _ saves :: rest => .resume false saves :: rest
  | rest => rest

/-- The first function on the stack runs on. -/
def run (s : Connection) : Connection :=
  match s.stack with
  | [] => s
  | .enter saving outer :: rest => s.enter saving outer rest
  | .answered writing none outer :: rest =>
    { s with stack := .resume false (writing.links :: outer) :: rest }
  | .answered writing (some response) outer :: rest =>
    -- only an `IDocument` has links
    let links := if writing.isDocument then writing.links else []
    { s.updateIdAndRev writing.isDocument response with stack := .resume true (links :: outer) :: rest }
  | .resume _ [] :: rest => { s with stack := rest }
  | .resume true ((link :: links) :: outer) :: rest =>
    { s with stack := .enter link (links :: outer) :: rest }
  | .resume ok (_ :: outer) :: rest => s.unlockNotifications o ok outer rest
  | .unlocking [] :: rest => { s with stack := rest }
  | .unlocking (listener :: callbacks) :: rest =>
    { s with stack := .unlocked listener :: .unlocking callbacks :: rest }
  | .unlocked listener :: rest =>
    match s.buffer listener with
    | [] => { s with stack := rest }
    | n :: buffer =>
      { s with buffer := Function.update s.buffer listener buffer }.processChange react listener n
        (.unlocked listener :: rest)
  | .callback ⟨saving :: writes, raises⟩ :: rest =>
    { s with stack := .enter saving [] :: .callback ⟨writes, raises⟩ :: rest }
  | .callback ⟨[], raises⟩ :: rest => { s with stack := if raises then unwind rest else rest }

/-- `on_change`. -/
def onChange (s : Connection) (listener : Nat) (n : Notification) : Connection :=
  let s := { s with arrived := s.arrived ++ [(listener, n)] }
  if 0 < s.updateLockCounter then
    { s with
      unlockedCallbacks :=
        if listener ∈ s.unlockedCallbacks then s.unlockedCallbacks else s.unlockedCallbacks ++ [listener]
      buffer := Function.update s.buffer listener (s.buffer listener ++ [n]) }
  else s.processChange react listener n []

/-- What happens: the code runs on; a write is started from outside; the database makes the
answer of a call; an answer arrives; the document a read asked for arrives; the database
commits a revision of somebody else; a notification arrives. -/
inductive Event where
  | run
  | start (saving : Saving)
  | serve (i : Nat) (answer : Option Response)
  | reply (i : Nat)
  | read (response : Response)
  | other (response : Response) (deleted : Bool)
  | change (listener : Nat) (n : Notification)

/-- One event, when it can happen. -/
def step (s : Connection) : Event → Option Connection
  | .run => if s.stack.isEmpty then none else some (s.run o react)
  | .start saving =>
    if s.stack.isEmpty then some { s with stack := [.enter saving []] } else none
  | .serve i answer =>
    match s.calls[i]? with
    | some ⟨writing, none, outer⟩ =>
      some { s.commitOwn writing.deletes answer with
             calls := s.calls.set i ⟨writing, some answer, outer⟩ }
    | _ => none
  | .reply i =>
    match s.stack, s.calls[i]? with
    | [], some ⟨writing, some answer, outer⟩ =>
      some { s with calls := s.calls.eraseIdx i, stack := [.answered writing answer outer] }
    | _, _ => none
  | .read response => if s.stack.isEmpty then some (s.noticeDocRevision response) else none
  | .other response deleted =>
    some { s with committed := ⟨response, deleted, false⟩ :: s.committed }
  | .change listener n => if s.stack.isEmpty then some (s.onChange react listener n) else none

/-- What the function on top of the stack can do next. -/
inductive Runs (s : Connection) : Connection → Prop where
  | asked {isDocument deletes : Bool} {links : List Saving} {outer : List (List Saving)}
      {rest : List Frame} :
      s.stack = .enter (.mk isDocument deletes .later links) outer :: rest →
      Runs s { s with updateLockCounter := s.updateLockCounter + 1
                      calls := s.calls ++ [⟨⟨isDocument, deletes, links⟩, none, outer⟩]
                      stack := rest }
  | askedNow {isDocument deletes : Bool} {answer : Option Response} {links : List Saving}
      {outer : List (List Saving)} {rest : List Frame} :
      s.stack = .enter (.mk isDocument deletes (.now answer) links) outer :: rest →
      Runs s { s.commitOwn deletes answer with
               updateLockCounter := s.updateLockCounter + 1
               stack := .answered ⟨isDocument, deletes, links⟩ answer outer :: rest }
  | failed {writing : Writing} {outer : List (List Saving)} {rest : List Frame} :
      s.stack = .answered writing none outer :: rest →
      Runs s { s with stack := .resume false (writing.links :: outer) :: rest }
  | succeeded {writing : Writing} {response : Response} {outer : List (List Saving)}
      {rest : List Frame} (links : List Saving) :
      s.stack = .answered writing (some response) outer :: rest →
      Runs s { s.updateIdAndRev writing.isDocument response with
               stack := .resume true (links :: outer) :: rest }
  | done {ok : Bool} {rest : List Frame} : s.stack = .resume ok [] :: rest →
      Runs s { s with stack := rest }
  | link {link : Saving} {links : List Saving} {outer : List (List Saving)} {rest : List Frame} :
      s.stack = .resume true ((link :: links) :: outer) :: rest →
      Runs s { s with stack := .enter link (links :: outer) :: rest }
  | released {ok : Bool} {links : List Saving} {outer : List (List Saving)} {rest : List Frame} :
      s.stack = .resume ok (links :: outer) :: rest → s.updateLockCounter - 1 = 0 →
      Runs s { s with updateLockCounter := s.updateLockCounter - 1
                      unlockedCallbacks := []
                      stack := .unlocking (o.arrange s.unlockedCallbacks) :: .resume ok outer :: rest }
  | kept {ok : Bool} {links : List Saving} {outer : List (List Saving)} {rest : List Frame} :
      s.stack = .resume ok (links :: outer) :: rest → s.updateLockCounter - 1 ≠ 0 →
      Runs s { s with updateLockCounter := s.updateLockCounter - 1, stack := .resume ok outer :: rest }
  | unlocked {rest : List Frame} : s.stack = .unlocking [] :: rest → Runs s { s with stack := rest }
  | next {listener : Nat} {callbacks : List Nat} {rest : List Frame} :
      s.stack = .unlocking (listener :: callbacks) :: rest →
      Runs s { s with stack := .unlocked listener :: .unlocking callbacks :: rest }
  | drained {listener : Nat} {rest : List Frame} :
      s.stack = .unlocked listener :: rest → s.buffer listener = [] →
      Runs s { s with stack := rest }
  | delivers {listener : Nat} {rest : List Frame} {n : Notification} {buffer : List Notification} :
      s.stack = .unlocked listener :: rest → s.buffer listener = n :: buffer →
      Runs s ({ s with buffer := Function.update s.buffer listener buffer }.processChange react
        listener n (.unlocked listener :: rest))
  | writes {saving : Saving} {writes : List Saving} {raises : Bool} {rest : List Frame} :
      s.stack = .callback ⟨saving :: writes, raises⟩ :: rest →
      Runs s { s with stack := .enter saving [] :: .callback ⟨writes, raises⟩ :: rest }
  | returned {rest : List Frame} : s.stack = .callback ⟨[], false⟩ :: rest →
      Runs s { s with stack := rest }
  | raised {rest : List Frame} : s.stack = .callback ⟨[], true⟩ :: rest →
      Runs s { s with stack := unwind rest }

/-- What can happen in an event. -/
inductive Step : Connection → Event → Connection → Prop where
  | run {s t : Connection} : Runs o react s t → Step s .run t
  | start {s : Connection} (saving : Saving) : s.stack = [] →
      Step s (.start saving) { s with stack := [.enter saving []] }
  | serve {s : Connection} {i : Nat} {writing : Writing} {outer : List (List Saving)}
      (answer : Option Response) : s.calls[i]? = some ⟨writing, none, outer⟩ →
      Step s (.serve i answer)
        { s.commitOwn writing.deletes answer with calls := s.calls.set i ⟨writing, some answer, outer⟩ }
  | reply {s : Connection} {i : Nat} {writing : Writing} {answer : Option Response}
      {outer : List (List Saving)} : s.stack = [] →
      s.calls[i]? = some ⟨writing, some answer, outer⟩ →
      Step s (.reply i)
        { s with calls := s.calls.eraseIdx i, stack := [.answered writing answer outer] }
  | read {s : Connection} (response : Response) : s.stack = [] →
      Step s (.read response) (s.noticeDocRevision response)
  | other {s : Connection} (response : Response) (deleted : Bool) :
      Step s (.other response deleted)
        { s with committed := ⟨response, deleted, false⟩ :: s.committed }
  | buffered {s : Connection} (listener : Nat) (n : Notification) : s.stack = [] →
      0 < s.updateLockCounter →
      Step s (.change listener n)
        { s with
          arrived := s.arrived ++ [(listener, n)]
          unlockedCallbacks :=
            if listener ∈ s.unlockedCallbacks then s.unlockedCallbacks
            else s.unlockedCallbacks ++ [listener]
          buffer := Function.update s.buffer listener (s.buffer listener ++ [n]) }
  | handed {s : Connection} (listener : Nat) (n : Notification) : s.stack = [] →
      s.updateLockCounter = 0 →
      Step s (.change listener n)
        ({ s with arrived := s.arrived ++ [(listener, n)] }.processChange react listener n [])

end Code

section Inversion
variable {o : HashOrder Nat} {react : List Delivery → Reaction} {s t : Connection}

theorem run_cases (h : s.stack ≠ []) : Runs o react s (s.run o react) := by
  unfold run
  split
  · rename_i hstack
    exact absurd hstack h
  · rename_i saving outer rest hstack
    obtain ⟨isDocument, deletes, reply, links⟩ := saving
    cases reply with
    | later => exact .asked hstack
    | now answer => exact .askedNow hstack
  · rename_i hstack
    exact .failed hstack
  · rename_i hstack
    exact .succeeded _ hstack
  · rename_i hstack
    exact .done hstack
  · rename_i hstack
    exact .link hstack
  · rename_i hstack
    unfold unlockNotifications
    split
    · rename_i hzero
      exact .released hstack hzero
    · rename_i hpos
      exact .kept hstack hpos
  · rename_i hstack
    exact .unlocked hstack
  · rename_i hstack
    exact .next hstack
  · rename_i hstack
    split
    · rename_i hbuffer
      exact .drained hstack hbuffer
    · rename_i hbuffer
      exact .delivers hstack hbuffer
  · rename_i hstack
    exact .writes hstack
  · rename_i raises rest hstack
    cases raises with
    | false => exact .returned hstack
    | true => exact .raised hstack

theorem step_cases {e : Event} (h : s.step o react e = some t) : Step o react s e t := by
  cases e with
  | run =>
    simp only [step] at h
    split at h
    · cases h
    · rename_i hne
      cases h
      exact .run (run_cases (by simpa using hne))
  | start saving =>
    simp only [step] at h
    split at h
    · rename_i hnil
      cases h
      exact .start saving (by simpa using hnil)
    · cases h
  | serve i answer =>
    simp only [step] at h
    split at h
    · rename_i hcall
      cases h
      exact .serve answer hcall
    · cases h
  | reply i =>
    simp only [step] at h
    split at h
    · rename_i hnil hcall
      cases h
      exact .reply hnil hcall
    · cases h
  | read response =>
    simp only [step] at h
    split at h
    · rename_i hnil
      cases h
      exact .read response (by simpa using hnil)
    · cases h
  | other response deleted =>
    cases h
    exact .other response deleted
  | change listener n =>
    simp only [step] at h
    split at h
    · rename_i hnil
      cases h
      have hnil : s.stack = [] := by simpa using hnil
      by_cases hlock : 0 < s.updateLockCounter
      · simp only [onChange, hlock, if_true]
        exact .buffered listener n hnil hlock
      · simp only [onChange, hlock, if_false]
        exact .handed listener n hnil (Nat.eq_zero_of_not_pos hlock)
    · cases h

end Inversion
end Connection
end Feat.Database
