import Mathlib.Data.List.Sort
import Feat.Lib.Hash
import Feat.Database.Revision

/- The emulated database (`feat.database.emu.Database`): documents with their
   attachments, the rows of views computed on demand and kept in a cache, and the
   list of all changes.

   Every operation returns its reply and the state it leaves, also when it fails.
   `uuid.uuid1()` is the serial number of the call. Of a document the model keeps
   the keys the operations read; the others are one value (`fields`). The
   listeners told of a change, the statistics and the log are left out. -/
namespace Feat.Database
open Hash

/-- An entry of `_attachments`. -/
structure Stub where
  follows : Bool
  stub : Bool
  contentType : String
  length : Nat
  deriving DecidableEq

/-- A document as it is sent: the id and the revision may be missing. -/
structure Body (Fields : Type) where
  id : Option String
  rev : Option String
  deleted : Bool
  type : Option String
  attachments : Option (Dict String Stub)
  fields : Fields

/-- A document as it is stored. -/
structure Doc (Fields : Type) where
  id : String
  rev : Revision
  deleted : Bool
  type : Option String
  attachments : Option (Dict String Stub)
  fields : Fields

def Doc.toBody {Fields : Type} (doc : Doc Fields) : Body Fields where
  id := some doc.id
  rev := some doc.rev.str
  deleted := doc.deleted
  type := doc.type
  attachments := doc.attachments
  fields := doc.fields

/-- An attachment with its body. -/
structure Attachment where
  name : String
  contentType : String
  length : Nat
  body : String

/-- A row of a view: the key and the value it emitted, and the document it did so for. -/
structure MapRow (K V : Type) where
  key : K
  value : V
  id : String
  deriving DecidableEq

inductive EmuError where
  | conflict
  | notFound
  | valueError
  | typeError
  | keyError
  deriving DecidableEq

abbrev Reply : Type := Except EmuError Response

/-- The state of the database. -/
structure EmuDatabase (Fields K V : Type) where
  documents : Dict String (Doc Fields)
  attachments : Dict String (Dict String String)
  viewCache : Dict String (Dict String (List (MapRow K V)))
  docTypeCounters : Dict String Nat
  changes : List (Doc Fields)
  serial : Nat

/-- The database as it is created. -/
def EmuDatabase.empty {Fields K V : Type} : EmuDatabase Fields K V := ⟨∅, ∅, ∅, ∅, [], 0⟩

namespace EmuDatabase
variable {Fields K V : Type}

/-! ## Ids and revisions -/

def uuid (serial : Nat) : String := toString serial

/-- The index of the revision that follows a body's: `cur_rev.split('-')` must give two parts. -/
def nextIndex : Option String → Except EmuError Nat
  | none => .ok 1
  | some rev =>
    if rev = "" then .ok 1
    else match parseRev rev with
      | .ok (counter, rand) => if '-' ∈ rand.toList then .error .valueError else .ok (counter + 1)
      | .error _ => .error .valueError

/-- `_update_rev` on a stored document. Its revision was made here and splits. -/
def updateRev (db : EmuDatabase Fields K V) (doc : Doc Fields) : Doc Fields × EmuDatabase Fields K V :=
  let doc := { doc with rev := ⟨doc.rev.index + 1, uuid db.serial⟩ }
  (doc, { db with changes := db.changes ++ [doc], serial := db.serial + 1 })

/-- `_generate_id`. -/
def generateId (db : EmuDatabase Fields K V) (type : Option String) :
    String × EmuDatabase Fields K V :=
  match type.filter (· ≠ "") with
  | some docType =>
    let counter := (db.docTypeCounters.lookup docType).getD 0 + 1
    (docType ++ "_" ++ toString counter,
      { db with docTypeCounters := db.docTypeCounters.insert docType counter })
  | none => (uuid db.serial, { db with serial := db.serial + 1 })

/-- The document is stored, not deleted, and the body does not carry its revision. -/
def conflicts (db : EmuDatabase Fields K V) (id : String) (rev : Option String) : Bool :=
  (db.documents.lookup id).any (fun old => !old.deleted && rev ≠ some old.rev.str)

/-- The id a body is to be stored under, if it has one. -/
def givenId (body : Body Fields) (docId : Option String) : Option String :=
  (docId.filter (· ≠ "")).or body.id

/-- `_set_id_and_revision` and `_update_rev` on a body. -/
def setIdAndRevision (db : EmuDatabase Fields K V) (body : Body Fields) (docId : Option String) :
    Except EmuError (Doc Fields) × EmuDatabase Fields K V :=
  match givenId body docId with
  | some id => if db.conflicts id body.rev then (.error .conflict, db) else store db id
  | none => store (db.generateId body.type).2 (db.generateId body.type).1
where
  store (db : EmuDatabase Fields K V) (id : String) :
      Except EmuError (Doc Fields) × EmuDatabase Fields K V :=
    match nextIndex body.rev with
    | .error e => (.error e, db)
    | .ok index =>
      let doc := ⟨id, ⟨index, uuid db.serial⟩, body.deleted, body.type, body.attachments, body.fields⟩
      (.ok doc, { db with changes := db.changes ++ [doc], serial := db.serial + 1 })

/-! ## Documents -/

/-- The loop over the names in `_attachments`: what it leaves of the entries and of the stored
bodies, and the error that ended it. -/
def followAttachments (following : Option (Dict String String)) :
    List String → Dict String Stub → Dict String String →
      Option EmuError × Dict String Stub × Dict String String
  | [], stubs, bodies => (none, stubs, bodies)
  | name :: names, stubs, bodies =>
    match stubs.lookup name with
    | none => followAttachments following names stubs bodies
    | some stub =>
      if stub.follows then
        match following with
        | none => (some .typeError, stubs, bodies)
        | some following' =>
          match following'.lookup name with
          | none => (some .valueError, stubs, bodies)
          | some body =>
            followAttachments following names
              (stubs.insert name { stub with follows := false, stub := true })
              (bodies.insert name body)
      else if name ∈ bodies then followAttachments following names stubs bodies
      else (some .valueError, stubs, bodies)

/-- The bodies whose name is in `_attachments`. -/
def keepListed (stubs : Dict String Stub) (bodies : Dict String String) : Dict String String :=
  (bodies.keys.filter (· ∉ stubs)).foldl (fun d name => d.erase name) bodies

/-- `_expire_cache`. -/
def expireCache (db : EmuDatabase Fields K V) (id : String) : EmuDatabase Fields K V :=
  { db with viewCache := db.viewCache.erase id }

/-- `save_doc` once the document has its id and revision. -/
def storeDoc (o : HashOrder String) (db : EmuDatabase Fields K V) (doc : Doc Fields)
    (following : Option (Dict String String)) : Reply × EmuDatabase Fields K V :=
  let stubs := doc.attachments.getD ∅
  let bodies := (db.attachments.lookup doc.id).getD ∅
  let (failure, stubs, bodies) := followAttachments following (o.arrange stubs.keys) stubs bodies
  let doc := { doc with attachments := doc.attachments.map (fun _ => stubs) }
  let db := { db with
    documents := db.documents.insert doc.id doc
    attachments := db.attachments.insert doc.id bodies }
  match failure with
  | some e => (.error e, db)
  | none =>
    let db := { db with attachments := db.attachments.insert doc.id (keepListed stubs bodies) }
    (.ok ⟨doc.id, doc.rev⟩, db.expireCache doc.id)

/-- `save_doc`. A body of `none` is one that is not a JSON string. -/
def saveDoc (o : HashOrder String) (db : EmuDatabase Fields K V) (body : Option (Body Fields))
    (docId : Option String) (following : Option (Dict String String)) :
    Reply × EmuDatabase Fields K V :=
  match body with
  | none => (.error .valueError, db)
  | some body =>
    match db.setIdAndRevision body docId with
    | (.error e, db) => (.error e, db)
    | (.ok doc, db) => storeDoc o db doc following

/-- `open_doc`. -/
def openDoc (db : EmuDatabase Fields K V) (docId : String) : Except EmuError (Doc Fields) :=
  match db.documents.lookup docId with
  | none => .error .notFound
  | some doc => if doc.deleted then .error .notFound else .ok doc

/-- `copy_doc`. -/
def copyDoc (o : HashOrder String) (db : EmuDatabase Fields K V) (docId destinationId : String)
    (rev : Option String) : Reply × EmuDatabase Fields K V :=
  match db.openDoc docId with
  | .error e => (.error e, db)
  | .ok doc =>
    db.saveDoc o (some { doc.toBody with id := some destinationId, rev := rev }) none none

/-- `delete_doc`. -/
def deleteDoc [Inhabited Fields] (db : EmuDatabase Fields K V) (docId : String) (revision : String) :
    Reply × EmuDatabase Fields K V :=
  match db.documents.lookup docId with
  | none => (.error .notFound, db)
  | some doc =>
    if doc.rev.str ≠ revision then (.error .conflict, db)
    else if doc.deleted then (.error .notFound, db)
    else
      let doc := { doc with deleted := true, type := none, attachments := none, fields := default }
      let db := ({ db with documents := db.documents.insert doc.id doc }).expireCache doc.id
      match db.attachments.lookup doc.id with
      | none => (.error .keyError, db)
      | some _ =>
        let (doc, db) := ({ db with attachments := db.attachments.erase doc.id }).updateRev doc
        (.ok ⟨docId, doc.rev⟩, { db with documents := db.documents.insert doc.id doc })

/-- `save_attachment`. The revision it is passed is not looked at. -/
def saveAttachment (db : EmuDatabase Fields K V) (docId : String) (_revision : String)
    (attachment : Attachment) : Reply × EmuDatabase Fields K V :=
  match db.documents.lookup docId with
  | none => (.error .notFound, db)
  | some doc =>
    let stub := ⟨false, true, attachment.contentType, attachment.length⟩
    let doc := { doc with
      attachments := some ((doc.attachments.getD ∅).insert attachment.name stub) }
    let db := { db with documents := db.documents.insert docId doc }
    match db.attachments.lookup doc.id with
    | none => (.error .keyError, db)
    | some bodies =>
      let bodies := bodies.insert attachment.name attachment.body
      let (doc, db) := ({ db with attachments := db.attachments.insert doc.id bodies }).updateRev doc
      (.ok ⟨doc.id, doc.rev⟩, { db with documents := db.documents.insert docId doc })

/-- `_iterdocs`. -/
def iterdocs (o : HashOrder String) (db : EmuDatabase Fields K V) : List (Doc Fields) :=
  (Dict.values o db.documents).filter (fun doc => !doc.deleted)

end EmuDatabase

/-! ## Views -/

/-- A view: its map function and, when it reduces, its reduce function. -/
structure View (Fields K V : Type) where
  map : Doc Fields → List (K × V)
  reduce : Option (List K → List V → V)

/-- The views by their names, which are unique, with what `query_view` does to keys and values:
`linkedId` is the `_id` in a value that has one, `truncate n` is `key[0:n]`. -/
structure Views (Fields K V : Type) where
  view : String → View Fields K V
  linkedId : V → Option String
  truncate : Nat → K → K

/-- The options of `query_view`. -/
structure ViewOptions (K : Type) where
  key : Option K
  keys : Option (List K)
  startkey : Option K
  endkey : Option K
  descending : Bool
  skip : Nat
  limit : Option Nat
  reduce : Bool
  group : Bool
  groupLevel : Option Nat
  includeDocs : Bool

/-- A row as it is returned. Reduced rows have no id; a document is there when documents were
asked for, and is `none` when it is gone. -/
structure ViewRow (Fields K V : Type) where
  key : Option K
  value : V
  id : Option String
  doc : Option (Option (Doc Fields))

namespace EmuDatabase
variable {Fields K V : Type}

/-- What the map function of a view makes of a document. -/
def mapRows (views : Views Fields K V) (name : String) (doc : Doc Fields) : List (MapRow K V) :=
  ((views.view name).map doc).map (fun x => ⟨x.1, x.2, doc.id⟩)

/-- `_get_cache`. -/
def getCache (db : EmuDatabase Fields K V) (id name : String) : Option (List (MapRow K V)) :=
  (db.viewCache.lookup id).bind (fun rows => rows.lookup name)

/-- `_set_cache`. -/
def setCache (db : EmuDatabase Fields K V) (id name : String) (rows : List (MapRow K V)) :
    EmuDatabase Fields K V :=
  { db with viewCache := db.viewCache.insert id (((db.viewCache.lookup id).getD ∅).insert name rows) }

/-- `_perform_map`. An empty list in the cache does not count. -/
def performMap (views : Views Fields K V) (name : String) (db : EmuDatabase Fields K V)
    (doc : Doc Fields) : List (MapRow K V) × EmuDatabase Fields K V :=
  match db.getCache doc.id name with
  | some (row :: rows) => (row :: rows, db)
  | _ => (mapRows views name doc, db.setCache doc.id name (mapRows views name doc))

/-- The rows of all documents, one after the other. -/
def performMaps (views : Views Fields K V) (name : String) :
    List (Doc Fields) → EmuDatabase Fields K V → List (MapRow K V) × EmuDatabase Fields K V
  | [], db => ([], db)
  | doc :: docs, db =>
    let (rows, db) := performMap views name db doc
    let (rest, db) := performMaps views name docs db
    (rows ++ rest, db)

section Query
variable [LinearOrder K]

theorem lawful_keys : LawfulBEq K := inferInstance

attribute [local instance] lawful_keys

/-- `_matches_filter`. -/
def matchesFilter (options : ViewOptions K) (row : MapRow K V) : Bool :=
  options.key.all (· = row.key) && options.keys.all (row.key ∈ ·) &&
  options.startkey.all (fun k => if options.descending then row.key ≤ k else k ≤ row.key) &&
  options.endkey.all (fun k => if options.descending then k ≤ row.key else row.key ≤ k)

/-- `_reduce_values`. -/
def reduceValues (reduce : List K → List V → V) (groupKey : Option K) (rows : List (MapRow K V)) :
    List (ViewRow Fields K V) :=
  if rows = [] then []
  else [⟨groupKey, reduce (rows.map MapRow.key) (rows.map MapRow.value), none, none⟩]

/-- `_perform_reduce`. -/
def performReduce (o : HashOrder K) (views : Views Fields K V) (reduce : List K → List V → V)
    (options : ViewOptions K) (rows : List (MapRow K V)) : List (ViewRow Fields K V) :=
  if !options.group && options.groupLevel.isNone then reduceValues reduce none rows
  else
    let groupKey := fun key => if options.group then key else
      match options.groupLevel with
      | some level => views.truncate level key
      | none => key
    (Dict.items o (Dict.group (rows.map (fun row => (groupKey row.key, row))))).flatMap
      (fun g => reduceValues reduce (some g.1) g.2)

/-- `_include_docs`. -/
def includeDocs (views : Views Fields K V) (db : EmuDatabase Fields K V)
    (rows : List (ViewRow Fields K V)) : List (ViewRow Fields K V) :=
  rows.map (fun row =>
    { row with doc := some (((views.linkedId row.value).or row.id).bind
        (fun id => (db.openDoc id).toOption)) })

/-- `_apply_slice`. -/
def applySlice {α : Type} (options : ViewOptions K) (rows : List α) : List α :=
  if 0 < options.skip ∨ options.limit ≠ none then
    match options.limit with
    | none => (rows.take (rows.length - 1)).drop options.skip
    | some limit => (rows.take (options.skip + limit)).drop options.skip
  else rows

/-- The order of row keys; reduced rows without a group have none. -/
def keyLe : Option K → Option K → Bool
  | none, _ => true
  | some _, none => false
  | some k, some l => k ≤ l

/-- `_sort_by_key`. -/
def sortByKey (options : ViewOptions K) (rows : List (ViewRow Fields K V)) :
    List (ViewRow Fields K V) :=
  rows.insertionSort (fun a b => if options.descending then keyLe b.key a.key else keyLe a.key b.key)

/-- `query_view` from the rows of the map functions on. -/
def finishQuery (o : HashOrder K) (views : Views Fields K V) (name : String)
    (options : ViewOptions K) (db : EmuDatabase Fields K V) (rows : List (MapRow K V)) :
    List (ViewRow Fields K V) :=
  let rows := rows.filter (matchesFilter options)
  let rows := match (views.view name).reduce with
    | some reduce => if options.reduce then performReduce o views reduce options rows else plain rows
    | none => plain rows
  let rows := if options.includeDocs then includeDocs views db rows else rows
  sortByKey options (applySlice options rows)
where
  plain (rows : List (MapRow K V)) : List (ViewRow Fields K V) :=
    rows.map (fun row => ⟨some row.key, row.value, some row.id, none⟩)

/-- The options `query_view` refuses. -/
def badOptions (views : Views Fields K V) (name : String) (options : ViewOptions K) : Bool :=
  (options.keys.isSome && options.groupLevel.any (0 < ·)) ||
  ((views.view name).reduce.isSome && options.reduce && options.includeDocs)

/-- `query_view`. -/
def queryView (oDocs : HashOrder String) (oKeys : HashOrder K) (views : Views Fields K V)
    (db : EmuDatabase Fields K V) (name : String) (options : ViewOptions K) :
    Except EmuError (List (ViewRow Fields K V)) × EmuDatabase Fields K V :=
  if badOptions views name options then (.error .valueError, db)
  else
    let (rows, db) := performMaps views name (db.iterdocs oDocs) db
    (.ok (finishQuery oKeys views name options db rows), db)

end Query
end EmuDatabase
end Feat.Database
