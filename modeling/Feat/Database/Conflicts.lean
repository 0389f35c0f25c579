import Mathlib.Data.List.Sort
import Feat.Lib.Hash
import Feat.Lib.Lineage

/- Merging conflicting revisions from the update logs
   (`feat.database.conflicts`: `_solve_merge`, `perform_merge`,
   `_find_common_ancestor`, `_get_logs_between`; `feat.database.update.steps`).

   A log records one update: the revision it started from, the revision it made,
   when, and the call. A log whose handler is `perform_merge` carries the logs it
   merged in its keywords; `_solve_merge` drops merges from the list before it
   passes it on, so the carried logs are plain, and `perform_merge` with nothing
   to apply resigns and is not logged, so there is at least one.

   `solveMerge` is `_solve_merge` up to the call of `update_document`: it returns
   the base document and the list of logs handed to `perform_merge`. The loops
   of the source that follow `rev_from` have no bound of their own; here they
   walk as many revisions as the lookup has entries and one more, and a walk that
   is not over by then never ends (`Raised.diverges`). -/
namespace Feat.Database
open Hash Lineage

/-- A log of a plain update. `call` is the handler with its arguments and
keywords. Of the timestamp only the order matters. -/
structure Update (Rev Call : Type) where
  revFrom : Option Rev
  revTo : Rev
  timestamp : Nat
  call : Call
  deriving DecidableEq

/-- A log whose handler is `perform_merge`, with `keywords['logs']`. -/
structure Merge (Rev Call : Type) where
  revFrom : Option Rev
  revTo : Rev
  timestamp : Nat
  logs : List (Update Rev Call)
  carries : logs ≠ []
  deriving DecidableEq

/-- `UpdateLog`, split by `log.handler is perform_merge`. -/
inductive UpdateLog (Rev Call : Type) where
  | update : Update Rev Call → UpdateLog Rev Call
  | merge : Merge Rev Call → UpdateLog Rev Call
  deriving DecidableEq

namespace UpdateLog
variable {Rev Call : Type}

def revFrom : UpdateLog Rev Call → Option Rev
  | .update u => u.revFrom
  | .merge m => m.revFrom

def revTo : UpdateLog Rev Call → Rev
  | .update u => u.revTo
  | .merge m => m.revTo

/-- The logs the keywords hold. -/
def carried : UpdateLog Rev Call → List (Update Rev Call)
  | .update _ => []
  | .merge m => m.logs

/-- The log itself when its handler is not `perform_merge`. -/
def plain : UpdateLog Rev Call → Option (Update Rev Call)
  | .update u => some u
  | .merge _ => none

@[simp] theorem revFrom_update (u : Update Rev Call) : (update u).revFrom = u.revFrom := rfl
@[simp] theorem revTo_update (u : Update Rev Call) : (update u).revTo = u.revTo := rfl
@[simp] theorem revFrom_merge (m : Merge Rev Call) : (merge m).revFrom = m.revFrom := rfl
@[simp] theorem revTo_merge (m : Merge Rev Call) : (merge m).revTo = m.revTo := rfl

@[simp] theorem plain_eq_some {l : UpdateLog Rev Call} {u : Update Rev Call} :
    l.plain = some u ↔ l = update u := by
  cases l <;> simp [plain]

end UpdateLog

/-- A document: its revision and its content without the meta fields. -/
structure Document (Rev Body : Type) where
  rev : Rev
  body : Body
  deriving DecidableEq

/-- How a call ends when it does not return. `missing r`: "Revision r is missing in
the lookup"; `orphan r`: "Revision r doesn't have ancestor". -/
inductive Raised (Rev : Type) where
  | notFound (rev : Rev)
  | missing (rev : Rev)
  | orphan (rev : Rev)
  | indexError
  | noCommonAncestor
  | modified
  | diverges
  deriving DecidableEq

/-! ## Running update methods -/

/-- How an update method ends: with a document, with `None` (delete the document), or
by raising `ResignFromModifying`. -/
inductive Outcome (Doc : Type) where
  | returns : Doc → Outcome Doc
  | deletes : Outcome Doc
  | resigns : Outcome Doc
  deriving DecidableEq

section Steps
variable {Rev Call Body : Type}

/-- The loop of `steps`; `changed` is its flag. -/
def stepsLoop (apply : Call → Body → Outcome Body) : Body → Bool → List Call → Outcome Body
  | document, changed, [] => if changed then .returns document else .resigns
  | document, changed, call :: rest =>
    match apply call document with
    | .returns document => stepsLoop apply document true rest
    | .deletes => .deletes
    | .resigns => stepsLoop apply document changed rest

/-- `update.steps`. -/
def steps (apply : Call → Body → Outcome Body) (document : Body) (updates : List Call) :
    Outcome Body :=
  stepsLoop apply document false updates

/-- `perform_merge`: replay `logs` on `root`; the result takes the place of `rev`. -/
def performMerge [DecidableEq Rev] (apply : Call → Body → Outcome Body)
    (document root : Document Rev Body) (logs : List (Update Rev Call)) (rev : Rev) :
    Except (Raised Rev) (Outcome (Document Rev Body)) :=
  if document.rev ≠ rev then .error .modified
  else match steps apply root.body (logs.map Update.call) with
    | .returns res => .ok (.returns ⟨rev, res⟩)
    | .deletes => .ok .deletes
    | .resigns => .ok .resigns

theorem stepsLoop_returns (apply : Call → Body → Outcome Body) (f : Call → Body → Body)
    (hf : ∀ c b, apply c b = .returns (f c b)) (document : Body) (calls : List Call) :
    stepsLoop apply document true calls = .returns (calls.foldl (fun b c => f c b) document) := by
  induction calls generalizing document with
  | nil => rfl
  | cons c rest ih => rw [stepsLoop, hf]; exact ih _

/-- When no update resigns or deletes, the merge is the base with every call of the list
applied once, in the order of the list. -/
theorem performMerge_replays [DecidableEq Rev] (apply : Call → Body → Outcome Body)
    (f : Call → Body → Body) (hf : ∀ c b, apply c b = .returns (f c b))
    (document root : Document Rev Body) (logs : List (Update Rev Call)) (hne : logs ≠ []) :
    performMerge apply document root logs document.rev =
      .ok (.returns ⟨document.rev, logs.foldl (fun b x => f x.call b) root.body⟩) := by
  cases logs with
  | nil => exact absurd rfl hne
  | cons x rest =>
    have h : steps apply root.body ((x :: rest).map Update.call) =
        .returns ((x :: rest).foldl (fun b x => f x.call b) root.body) := by
      simp only [steps, List.map_cons, stepsLoop, hf, List.foldl_cons]
      rw [stepsLoop_returns apply f hf, List.foldl_map]
    simp only [performMerge, ne_eq, not_true_eq_false, if_false, h]

end Steps

/-! ## Following the logs -/

section Lookup
variable {Rev Call Body : Type} [DecidableEq Rev]

abbrev Lookup (Rev Call : Type) : Type := Dict Rev (UpdateLog Rev Call)

/-- The logs of the view followed by the logs the merges among them carry. -/
def expandMerges (logs : List (UpdateLog Rev Call)) : List (UpdateLog Rev Call) :=
  logs ++ (logs.flatMap UpdateLog.carried).map .update

/-- `dict((x.rev_to, x) for x in logs)`. -/
def lookupOf (logs : List (UpdateLog Rev Call)) : Lookup Rev Call :=
  Dict.ofList (logs.map (fun x => (x.revTo, x)))

/-- The revision the log on record for `rev` started from. -/
def parent (lookup : Lookup Rev Call) (rev : Rev) : Option Rev :=
  (lookup.lookup rev).bind UpdateLog.revFrom

/-- The `while` loop of `_find_common_ancestor` for one revision: its history, oldest first. -/
def branch (lookup : Lookup Rev Call) (rev : Rev) : Except (Raised Rev) (List Rev) :=
  match walk (parent lookup) (lookup.keys.length + 1) rev with
  | some l => .ok l.reverse
  | none => .error .diverges

/-- The `history` dict of `_find_common_ancestor`. -/
def history (lookup : Lookup Rev Call) (revs : List Rev) :
    Except (Raised Rev) (Dict Rev (List Rev)) :=
  revs.foldlM (fun h rev => return h.insert rev (← branch lookup rev)) ∅

/-- `_find_common_ancestor`. -/
def findCommonAncestor (o : HashOrder Rev) (lookup : Lookup Rev Call) (revs : List Rev) :
    Except (Raised Rev) (Option Rev) := do
  let branches := Dict.values o (← history lookup revs)
  match branches.head? with
  | none => .error .indexError
  | some first => return first.reverse.find? (fun candidate => branches.all (candidate ∈ ·))

/-- The loop of `_get_logs_between`, `resp` being the logs collected so far. -/
def logsBetween (lookup : Lookup Rev Call) (fromRev : Rev) :
    Nat → Rev → List (UpdateLog Rev Call) → Except (Raised Rev) (List (UpdateLog Rev Call))
  | 0, _, _ => .error .diverges
  | n + 1, rev, resp =>
    match lookup.lookup rev with
    | none => .error (.missing rev)
    | some log =>
      match log.revFrom with
      | none => .error (.orphan log.revTo)
      | some rev' =>
        if rev' = fromRev then .ok (log :: resp) else logsBetween lookup fromRev n rev' (log :: resp)

/-- `_get_logs_between`. -/
def getLogsBetween (fromRev toRev : Rev) (lookup : Lookup Rev Call) :
    Except (Raised Rev) (List (UpdateLog Rev Call)) :=
  logsBetween lookup fromRev (lookup.keys.length + 1) toRev []

/-- `remove_target_rev` on a list of `n` logs: drop the first log that made `rev`, then the
one that made the revision it started from, and so on. -/
def removeTargetRevN : Nat → List (Update Rev Call) → Option Rev → List (Update Rev Call)
  | 0, logs, _ => logs
  | n + 1, logs, rev =>
    match logs.find? (fun x => some x.revTo = rev) with
    | none => logs
    | some toRemove =>
      removeTargetRevN n (logs.eraseP (fun x => some x.revTo = rev)) toRemove.revFrom

/-- `remove_target_rev`. -/
def removeTargetRev (logs : List (Update Rev Call)) (rev : Rev) : List (Update Rev Call) :=
  removeTargetRevN logs.length logs (some rev)

/-! ## The merge -/

/-- What one partition holds about the document: the logs the view returns, and the
content of the revisions it can still serve. -/
structure Partition (Rev Call Body : Type) where
  logs : List (UpdateLog Rev Call)
  serves : Rev → Option Body

/-- `get_document(doc_id, rev=rev)`. -/
def Partition.getDocument (db : Partition Rev Call Body) (rev : Rev) :
    Except (Raised Rev) (Document Rev Body) :=
  match db.serves rev with
  | some body => .ok ⟨rev, body⟩
  | none => .error (.notFound rev)

/-- Whether no conflicting revision differs from `doc` in content. The loop stops at the
first that does. -/
def sameContent [DecidableEq Body] (db : Partition Rev Call Body) (doc : Document Rev Body) :
    List Rev → Except (Raised Rev) Bool
  | [] => .ok true
  | rev :: rest => do
    let fetched ← db.getDocument rev
    if doc.body = fetched.body then sameContent db doc rest else return false

/-- What `_solve_merge` decides: delete the conflicting revisions because they say the same,
or call `perform_merge` on a base document with a list of logs. -/
inductive Resolution (Rev Call Body : Type) where
  | dbWinner : Resolution Rev Call Body
  | performMerge (root : Document Rev Body) (logs : List (Update Rev Call)) :
      Resolution Rev Call Body
  deriving DecidableEq

/-- The plain logs of the lookup by timestamp. -/
def plainLogs (o : HashOrder Rev) (lookup : Lookup Rev Call) : List (Update Rev Call) :=
  ((Dict.values o lookup).filterMap UpdateLog.plain).insertionSort
    (fun x y => x.timestamp ≤ y.timestamp)

/-- The document the merge starts from: the common ancestor or, when that is gone, the
winner, once the logs are known to lead from the ancestor to every conflicting revision. -/
def baseDocument (db : Partition Rev Call Body) (lookup : Lookup Rev Call)
    (doc : Document Rev Body) (conflicts : List Rev) (rootRev : Rev) :
    Except (Raised Rev) (Document Rev Body) :=
  match db.serves rootRev with
  | some body => .ok ⟨rootRev, body⟩
  | none => do
    -- the logs collected here are dropped: the list is computed again from the lookup
    conflicts.forM (fun conflict => discard (getLogsBetween rootRev conflict lookup))
    return doc

/-- `_solve_merge` up to the update of the document. -/
def solveMerge [DecidableEq Body] (o : HashOrder Rev) (db : Partition Rev Call Body)
    (doc : Document Rev Body) (conflicts : List Rev) :
    Except (Raised Rev) (Resolution Rev Call Body) := do
  if ← sameContent db doc conflicts then return .dbWinner
  let lookup := lookupOf (expandMerges db.logs)
  match ← findCommonAncestor o lookup (doc.rev :: conflicts) with
  | none => .error .noCommonAncestor
  | some rootRev =>
    let root ← baseDocument db lookup doc conflicts rootRev
    return .performMerge root (removeTargetRev (plainLogs o lookup) rootRev)

end Lookup
end Feat.Database
