import Feat.Database.Emu
import Feat.Lib.Run

/- Updates of documents by connections that share a database (`feat.database.client`:
   `Connection.save_document`, `delete_document`, `update_document_ex`,
   `_iterate_on_update`, `_log_update`, `_errback_on_update`).

   The database is the emulated one, each of whose operations is atomic. A call of
   `update_document` or `save_document` runs from one operation to the next in a
   step (`run`), and the steps of all calls interleave in any order. Which of the
   connections a call belongs to makes no difference to it.

   A document is what the serializer makes of it, and each call has its own copy of
   what it is given. The method of an update is a function of the document: it
   hands back the document it was given, so that the id and the revision stay. The
   tag of the database, which is one of the values an update log is made of, is not
   fetched here: its document is saved like any other, and errors of it are
   swallowed. `commits` and `relinked` are kept for the record and read by no code. -/
namespace Feat.Database.Updating
open Hash EmuDatabase

/-- A document to be saved and the documents registered in its `links.to_save`. `create` is
what `links.create` makes of its own fields for the document with the given id. -/
inductive Unsaved (F : Type) where
  | mk (body : Body F) (following : Option (Dict String String)) (create : String → F → F)
      (toSave : List (Unsaved F))

def Unsaved.body {F : Type} : Unsaved F → Body F
  | .mk body _ _ _ => body

/-- How a method ends: by `ResignFromModifying`, by another exception, by `None` (of the fields
some are kept in the deleted document), or by the document. -/
inductive Outcome (F : Type) where
  | resign
  | fail
  | delete (kept : F)
  | save (doc : Unsaved F)

/-- An update: its method, and whether the document is one whose conflicts are merged. -/
structure Update (F : Type) where
  method : Body F → Outcome F
  merging : Bool

/-- The document a method was called for, and whether it was fetched by the call itself. -/
structure Held (F : Type) where
  body : Body F
  fetched : Bool

inductive Result where
  | resigned
  | saved (response : Response)
  | failed (error : Option EmuError)

/-- What a call does next. `base` is the document an update was applied to, for a plain save
there is none; `waiting` are the loops over `links.to_save`, innermost first, each with the id
of the document it links to. -/
inductive Phase (F : Type) where
  | fetch (docId : Option String)
  | save (base : Option (Held F)) (doc : Unsaved F)
  | link (base : Option (Held F)) (response : Response) (waiting : List (String × List (Unsaved F)))
  | sequence (base : Held F) (response : Response)
  | log (base : Held F) (response : Response) (seq : Nat)
  | done (result : Result)

/-- A call of `update_document`, or of `save_document`. -/
structure Call (F : Type) where
  update : Option (Update F)
  phase : Phase F
  relinked : Bool

/-- A revision that was written: by which call, what an update was applied to, the document it
was written over, and the calls whose effects are in it. -/
structure Commit (F : Type) where
  call : Nat
  base : Option (Held F)
  replaced : Option (Doc F)
  doc : Doc F
  applied : List Nat

structure Shared (F K V : Type) where
  db : EmuDatabase F K V
  calls : List (Call F)
  commits : List (Commit F)

/-- The fields of an update log, from the revisions it leads from and to and the sequence
number. -/
structure Logging (F : Type) where
  order : HashOrder String
  updateLog : Option String → Response → Nat → F

/-- What a document with this revision holds: the effects of all updates that led to it. -/
def effects {F : Type} (commits : List (Commit F)) (rev : Option String) : List Nat :=
  ((commits.find? (fun k => some k.doc.rev.str = rev)).map Commit.applied).getD []

namespace Update
variable {F : Type}

/-- The document that is saved for the one the method was called for. -/
def unsaved (u : Update F) (body : Body F) : Option (Unsaved F) :=
  match u.method body with
  | .resign => none
  | .fail => none
  | .delete kept =>
    some (.mk { body with deleted := true, attachments := none, fields := kept } none
      (fun _ fields => fields) [])
  | .save (.mk result following create toSave) =>
    some (.mk { result with id := body.id, rev := body.rev } following create toSave)

/-- `_iterate_on_update`. -/
def iterate (u : Update F) (held : Held F) : Phase F :=
  match u.unsaved held.body with
  | some doc => .save (some held) doc
  | none =>
    match u.method held.body with
    | .resign => .done .resigned
    | _ => .done (.failed none)

end Update

namespace Call
variable {F : Type}

/-- The document was fetched: the method is called. -/
def opened (call : Call F) (doc : Except EmuError (Doc F)) : Phase F :=
  match call.update, doc with
  | some u, .ok doc => u.iterate ⟨doc.toBody, true⟩
  | _, .error e => .done (.failed (some e))
  | none, .ok _ => .done (.failed none)

/-- The document and all it links to are saved: an update log follows or the call is done. -/
def finished (call : Call F) (base : Option (Held F)) (response : Response) : Phase F :=
  match base, call.update with
  | some held, some u => if u.merging then .sequence held response else .done (.saved response)
  | _, _ => .done (.saved response)

/-- The loops over `links.to_save` go on. -/
def linking (call : Call F) (base : Option (Held F)) (response : Response) :
    List (String × List (Unsaved F)) → Phase F
  | [] => call.finished base response
  | (_, []) :: waiting => linking call base response waiting
  | (id, doc :: docs) :: waiting => .link base response ((id, doc :: docs) :: waiting)

/-- `_errback_on_update`, where the save was one of an update. -/
def caught (base : Option (Held F)) (e : EmuError) : Phase F :=
  match base with
  | some held => if e = .conflict then .fetch held.body.id else .done (.failed (some e))
  | none => .done (.failed (some e))

end Call

namespace Shared
variable {F K V : Type} (c : Logging F)

/-- No document is stored and nobody calls. -/
def new : Shared F K V := ⟨.empty, [], []⟩

/-- `save_doc` in a call. What the database adds to its changes is committed. -/
def write (s : Shared F K V) (i : Nat) (base : Option (Held F)) (body : Body F)
    (following : Option (Dict String String)) : Reply × Shared F K V :=
  let (reply, db) := s.db.saveDoc c.order (some body) body.id following
  let applied := effects s.commits body.rev ++ if base.isSome then [i] else []
  (reply, { s with
    db := db
    commits := s.commits ++ (db.changes.drop s.db.changes.length).map
      (fun doc => ⟨i, base, s.db.documents.lookup doc.id, doc, applied⟩) })

/-- The call goes on with the phase. -/
def goOn (s : Shared F K V) (i : Nat) (call : Call F) (phase : Phase F) : Shared F K V :=
  { s with calls := s.calls.set i { call with phase := phase } }

/-- A linked document was not saved: an update starts again although its document was saved. -/
def unlinked (s : Shared F K V) (i : Nat) (call : Call F) (base : Option (Held F)) (e : EmuError) :
    Shared F K V :=
  s.goOn i { call with relinked := call.relinked || e = .conflict } (Call.caught base e)

/-- A call performs its next operation and runs on to the one after it. -/
def run (s : Shared F K V) (i : Nat) : Option (Shared F K V) := do
  let call ← s.calls[i]?
  match call.phase with
  | .fetch docId =>
    return s.goOn i call (call.opened (docId.elim (.error .notFound) s.db.openDoc))
  | .save base (.mk body following _ toSave) =>
    match s.write c i base body following with
    | (.ok response, s) =>
      return s.goOn i call (call.linking base response [(response.id, toSave)])
    | (.error e, s) => return s.goOn i call (Call.caught base e)
  | .link base response ((id, .mk body following create toSave :: docs) :: waiting) =>
    match s.write c i none { body with fields := create id body.fields } following with
    | (.ok linked, s) =>
      return s.goOn i call
        (call.linking base response ((linked.id, toSave) :: (id, docs) :: waiting))
    | (.error e, s) => return s.unlinked i call base e
  | .sequence held response => return s.goOn i call (.log held response s.db.changes.length)
  | .log held response seq =>
    let fields := c.updateLog held.body.rev response seq
    match s.write c i none ⟨none, none, false, some "update_log", none, fields⟩ none with
    | (.ok _, s) => return s.goOn i call (.done (.saved response))
    | (.error e, s) => return s.goOn i call (Call.caught (some held) e)
  | .link .. | .done _ => none

/-- A call starts, for a document or for its id, or one goes on. -/
inductive Event (F : Type) where
  | update (u : Update F) (doc : Body F)
  | updateById (u : Update F) (docId : String)
  | save (doc : Unsaved F)
  | run (i : Nat)

def step (s : Shared F K V) : Event F → Option (Shared F K V)
  | .update u doc => some { s with calls := s.calls ++ [⟨some u, u.iterate ⟨doc, false⟩, false⟩] }
  | .updateById u docId =>
    some { s with calls := s.calls ++ [⟨some u, .fetch (some docId), false⟩] }
  | .save doc => some { s with calls := s.calls ++ [⟨none, .save none doc, false⟩] }
  | .run i => s.run c i

end Shared
end Feat.Database.Updating
