import Feat.Lib.Hash
import Feat.Database.Revision
import Feat.Database.View

/- Cleaning up update logs (`feat.database.conflicts`: `UpdateLogs`,
   `Replications`, `get_replication_status`, `cleanup_logs`, `_check_conflict`,
   `_group_rows`).

   A log made in this partition is removed once every replication target has
   seen it; a log imported from another partition once the document it belongs
   to is at the revision the log leads to. The first is read off the replicator
   database and the list of active tasks, the second off the view rows, grouped
   by partition and owner: the last row of a group decides for all of it.

   `cleanupLogs` is one run with nobody else writing. Its result is
   `deletes_count` and the logs that are left. -/
namespace Feat.Database
open Hash

/-! ## Replications -/

/-- An entry of `/_active_tasks`. -/
structure ActiveTask where
  type : String
  replicationId : Option String
  checkpointedSourceSeq : Nat

/-- A document of the replicator database. `stats` is `checkpointed_source_seq` of
`_replication_stats`. -/
structure ReplicationDoc where
  source : String
  target : String
  replicationId : Option String
  state : Option String
  continuous : Bool
  stats : Option Nat

/-- The replicator database and its server. -/
structure Replicator where
  isDriver : Bool
  version : List Nat
  activeTasks : List ActiveTask
  documents : List ReplicationDoc

/-- How `cleanup_logs` fails: `version v`: "CouchDB 1.2.0 required, found v". -/
inductive CleanupError where
  | typeError
  | version (found : List Nat)
  | keyError (key : String)
  | indexError
  | valueError (e : ValueError)
  deriving DecidableEq

/-- A row of the replication status. -/
structure Status where
  seq : Nat
  continuous : Bool
  state : Option String
  replicationId : String
  deriving DecidableEq

/-- `str.replace(old, '')`; `skip` characters of the match at hand are still to go. -/
def cut (old : List Char) : Nat → List Char → List Char
  | _, [] => []
  | skip + 1, _ :: s => cut old skip s
  | 0, c :: s => if old.isPrefixOf (c :: s) then cut old (old.length - 1) s else c :: cut old 0 s

def continuousSuffix : List Char := "+continuous".toList

/-- The replication id of a task without the suffix newer servers put on it. -/
def ActiveTask.cutSuffix (task : ActiveTask) : ActiveTask :=
  if task.type = "replication" ∧ continuousSuffix.isSuffixOf (task.replicationId.getD "").toList then
    { task with
      replicationId := task.replicationId.map (fun i => String.ofList (cut continuousSuffix 0 i.toList)) }
  else task

/-- The replication tasks by replication id. -/
def replicationTasks (tasks : List ActiveTask) : Dict String ActiveTask :=
  Dict.ofList ((tasks.map ActiveTask.cutSuffix).filterMap (fun task =>
    if task.type = "replication" then task.replicationId.map (fun i => (i, task)) else none))

/-- `Replications.map`. -/
def Replications.map (doc : ReplicationDoc) : List (Key × Option String) :=
  match doc.replicationId with
  | none => []
  | some _ => [([.str "source", .str doc.source], none), ([.str "target", .str doc.target], none)]

/-- What one replication contributes to the status of its target. -/
def statusOf (tasks : Dict String ActiveTask) (replication : ReplicationDoc) :
    Except CleanupError Status :=
  match replication.replicationId with
  | none => .error (.keyError "_replication_id")
  | some id =>
    if replication.state = some "completed" then
      match replication.stats with
      | none => .error (.keyError "_replication_stats")
      | some seq => .ok ⟨seq, false, some "completed", id⟩
    else if replication.state = some "triggered" ∧ replication.continuous = true then
      match tasks.lookup id with
      | none => .ok ⟨0, true, some "task_missing", id⟩
      | some task => .ok ⟨task.checkpointedSourceSeq, true, some "running", id⟩
    else .ok ⟨0, replication.continuous, replication.state, id⟩

/-- The target of a replication and what it contributes. -/
def statusRow (tasks : Dict String ActiveTask) (replication : ReplicationDoc) :
    Except CleanupError (String × Status) :=
  (statusOf tasks replication).map (fun status => (replication.target, status))

/-- The most recent status first, and of equally recent ones the continuous one. -/
def sortStatuses (rows : List Status) : List Status :=
  rows.insertionSort (fun x y => toLex (y.seq, y.continuous) ≤ toLex (x.seq, x.continuous))

/-- `get_replication_status`. -/
def getReplicationStatus (replicator : Replicator) (source : String) :
    Except CleanupError (Dict String (List Status)) := do
  if replicator.isDriver = false then throw .typeError
  if replicator.version < [1, 2, 0] then throw (.version replicator.version)
  let tasks := replicationTasks replicator.activeTasks
  let rows := queryView Replications.map replicator.documents (.only [.str "source", .str source])
  let statuses ← rows.mapM (fun row => statusRow tasks row.doc)
  return Dict.map sortStatuses (Dict.group statuses)

/-! ## Update logs -/

/-- The fields of an update log that the cleanup reads. -/
structure LogDocument where
  docId : String
  ownerId : String
  partitionTag : String
  seqNum : Nat
  revTo : Revision
  deriving DecidableEq

/-- `UpdateLogs.map`. -/
def UpdateLogs.map (doc : LogDocument) : List (Key × Option String) :=
  [([.str "doc_id", .str doc.ownerId], none),
   ([.str "seq_num", .str doc.partitionTag, .num doc.seqNum], some doc.ownerId),
   ([.str "rev", .str doc.partitionTag, .str doc.ownerId, .str doc.revTo.str], none)]

/-- `UpdateLogs.until_seq`. -/
def UpdateLogs.untilSeq (partitionTag : String) (seq : Option Nat) : Range where
  startkey := [.str "seq_num", .str partitionTag]
  endkey := [.str "seq_num", .str partitionTag, (seq.map Atom.num).getD .object]

/-- `UpdateLogs.all`. -/
def UpdateLogs.all : Range where
  startkey := [.str "rev"]
  endkey := [.str "rev", .object]

/-- What the database holds of a document that is not deleted. -/
structure DocState where
  rev : Revision
  inConflict : Bool
  deriving DecidableEq

/-- The database of one partition: its name and tag, its update logs and the documents they
belong to. -/
structure LogDatabase where
  name : String
  ownTag : String
  logs : List LogDocument
  docs : String → Option DocState
  unique : (logs.map LogDocument.docId).Nodup

/-- The raw document, or the stand-in for one that is not found. -/
inductive RawDoc where
  | deleted : RawDoc
  | live (rev : Revision) : RawDoc
  deriving DecidableEq

/-- `_check_conflict`. -/
def checkConflict (db : LogDatabase) (docId : Option String) : Bool × RawDoc :=
  match docId.bind db.docs with
  | none => (false, .deleted)
  | some doc => (doc.inConflict, .live doc.rev)

/-- The state of the run. -/
structure Cleaned where
  deletesCount : Nat
  logs : List LogDocument
  deriving DecidableEq

/-- Count a delete and make it. -/
def Cleaned.cleanup (s : Cleaned) (docId : String) : Cleaned where
  deletesCount := s.deletesCount + 1
  logs := s.logs.filter (fun log => log.docId ≠ docId)

abbrev LogRow : Type := Row (Option String) LogDocument

/-- `clean_local`. -/
def cleanLocal (db : LogDatabase) (s : Cleaned) (row : LogRow) : Cleaned :=
  if (checkConflict db row.value).1 then s else s.cleanup row.doc.docId

/-- The key and the value `_group_rows` takes from a row: `(partition_tag, owner_id)` and
`(rev, doc_id)`. -/
def importedEntry (row : LogRow) : Except CleanupError ((String × String) × (String × String)) :=
  match row.key with
  | [_, .str partitionTag, .str ownerId, .str rev] =>
    .ok ((partitionTag, ownerId), (rev, row.doc.docId))
  | _ => .error .indexError

/-- `_group_rows`. -/
def groupRows (rows : List LogRow) :
    Except CleanupError (Dict (String × String) (List (String × String))) := do
  return Dict.group (← rows.mapM importedEntry)

/-- `raw_doc.get('_deleted') or parse_rev(last_rev) <= parse_rev(raw_doc['_rev'])`. -/
def caughtUp (lastRev : String) : RawDoc → Except CleanupError Bool
  | .deleted => .ok true
  | .live rev =>
    match parseRev lastRev, parseRev rev.str with
    | .ok last, .ok current => .ok (toLex last ≤ toLex current)
    | .error e, _ => .error (.valueError e)
    | _, .error e => .error (.valueError e)

/-- `clean_imported`. -/
def cleanImported (db : LogDatabase) (s : Cleaned)
    (group : (String × String) × List (String × String)) : Except CleanupError Cleaned :=
  let ((partitionTag, ownerId), entries) := group
  if partitionTag = db.ownTag then .ok s
  else
    let (inConflict, rawDoc) := checkConflict db (some ownerId)
    match entries.getLast? with
    | none => .error .indexError
    | some (lastRev, _) =>
      if inConflict then .ok s
      else do
        if ← caughtUp lastRev rawDoc then return entries.foldl (fun s e => s.cleanup e.2) s
        else return s

/-- The highest checkpoint of a target. -/
def highest (rows : List Status) : Nat := (rows.map Status.seq).foldr max 0

/-- `cleanup_seq`: the lowest checkpoint over the targets, if there are any. -/
def cleanupSeq (o : HashOrder String) (statuses : Dict String (List Status)) : Option Nat :=
  (Dict.values o (Dict.map highest statuses)).min?

/-- `cleanup_logs`. -/
def cleanupLogs (o : HashOrder String) (o' : HashOrder (String × String)) (db : LogDatabase)
    (replicator : Replicator) : Except CleanupError Cleaned := do
  let statuses ← getReplicationStatus replicator db.name
  let rows := queryView UpdateLogs.map db.logs
    (UpdateLogs.untilSeq db.ownTag (cleanupSeq o statuses))
  let s := rows.foldl (cleanLocal db) ⟨0, db.logs⟩
  let rows := queryView UpdateLogs.map s.logs UpdateLogs.all
  let grouped ← groupRows rows
  (Dict.items o' grouped).foldlM (cleanImported db) s

end Feat.Database
