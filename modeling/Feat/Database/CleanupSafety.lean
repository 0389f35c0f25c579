import Feat.Lib.Fallible
import Feat.Database.Cleanup

/- What the cleanup of update logs may remove and when it keeps to that.

   A log imported from another partition is still needed while its document is
   in conflict or has not reached the revision the log leads to; a log of this
   partition while its document is in conflict or some replication target has
   not seen it. `cleanupLogs_safe_iff`: a run removes nothing that is needed
   exactly when, in every group with a log ahead of its document, the log whose
   revision identifier is the last one as a string is ahead too. Logs of this
   partition are always removed safely (`local_safe`). -/
namespace Feat.Database
open Hash Fallible

/-! ## The specification -/

/-- `doc` belongs to a replication of `source`. -/
def ReplicationDoc.Replicates (source : String) (doc : ReplicationDoc) : Prop :=
  doc.source = source ∧ doc.replicationId ≠ none

/-- Some replication of `source` to `target` has a checkpoint at `seq` or later. -/
def Reached (replicator : Replicator) (source target : String) (seq : Nat) : Prop :=
  ∃ doc ∈ replicator.documents, doc.Replicates source ∧ doc.target = target ∧
    ∃ status, statusOf (replicationTasks replicator.activeTasks) doc = .ok status ∧ seq ≤ status.seq

/-- Every replication target of `source` has reached `seq`. -/
def Replicated (replicator : Replicator) (source : String) (seq : Nat) : Prop :=
  ∀ doc ∈ replicator.documents, doc.Replicates source → Reached replicator source doc.target seq

/-- The owner of the log is deleted, or not in conflict and at a revision as high as the log's. -/
def CaughtUp (db : LogDatabase) (log : LogDocument) : Prop :=
  ∀ doc, db.docs log.ownerId = some doc → doc.inConflict = false ∧ log.revTo.index ≤ doc.rev.index

def NotInConflict (db : LogDatabase) (log : LogDocument) : Prop :=
  ∀ doc, db.docs log.ownerId = some doc → doc.inConflict = false

/-- Nothing among the logs removed is still needed. -/
structure CleanupSafe (db : LogDatabase) (replicator : Replicator) (left : List LogDocument) :
    Prop where
  imported : ∀ log ∈ db.logs, log ∉ left → log.partitionTag ≠ db.ownTag → CaughtUp db log
  own : ∀ log ∈ db.logs, log ∉ left → log.partitionTag = db.ownTag →
    NotInConflict db log ∧ Replicated replicator db.name log.seqNum

/-- The two logs are in one group. -/
def SameGroup (log log' : LogDocument) : Prop :=
  log.partitionTag = log'.partitionTag ∧ log.ownerId = log'.ownerId

/-- `log` is in the group of `log'` and its revision identifier is the last of the group. -/
def LastOfGroup (db : LogDatabase) (log log' : LogDocument) : Prop :=
  log ∈ db.logs ∧ SameGroup log log' ∧
    ∀ x ∈ db.logs, SameGroup x log' → x.revTo.str ≤ log.revTo.str

/-- Whenever an imported log is ahead of its document, the last log of its group is. -/
def LastLogLeads (db : LogDatabase) : Prop :=
  ∀ log ∈ db.logs, log.partitionTag ≠ db.ownTag →
    ∀ doc, db.docs log.ownerId = some doc → doc.inConflict = false →
      doc.rev.index < log.revTo.index →
      ∃ last, LastOfGroup db last log ∧ ¬ last.revTo.before doc.rev

/-! ## The replication status -/

theorem mem_sortStatuses {rows : List Status} {status : Status} :
    status ∈ sortStatuses rows ↔ status ∈ rows :=
  (List.perm_insertionSort _ _).mem_iff

/-- The rows `Replications` has for a source are the replications of it. -/
theorem mem_replications {replicator : Replicator} {source : String} {doc : ReplicationDoc} :
    (∃ row ∈ queryView Replications.map replicator.documents (.only [.str "source", .str source]),
      row.doc = doc) ↔ doc ∈ replicator.documents ∧ doc.Replicates source := by
  simp only [mem_queryView, Range.only_contains]
  constructor
  · intro ⟨row, ⟨hdoc, hmap, hkey⟩, he⟩
    subst he
    refine ⟨hdoc, ?_⟩
    unfold Replications.map at hmap
    split at hmap
    · cases hmap
    · rename_i hid
      rw [hkey] at hmap
      simp at hmap
      exact ⟨hmap.1.symm, by simp [hid]⟩
  · intro ⟨hdoc, hsource, hid⟩
    refine ⟨⟨[.str "source", .str source], none, doc⟩, ⟨hdoc, ?_, rfl⟩, rfl⟩
    unfold Replications.map
    split
    · rename_i hnone
      exact absurd hnone hid
    · simp [hsource]

theorem statusRow_ok {tasks : Dict String ActiveTask} {doc : ReplicationDoc} {target : String}
    {status : Status} :
    statusRow tasks doc = .ok (target, status) ↔ doc.target = target ∧ statusOf tasks doc = .ok status := by
  unfold statusRow
  cases statusOf tasks doc <;> simp [Except.map]

section Replicated
variable {replicator : Replicator} {source : String} {pairs : List (String × Status)}
  {statuses : Dict String (List Status)}

/-- What the rows of `Replications` are turned into. -/
theorem mem_statuses
    (h : (queryView Replications.map replicator.documents (.only [.str "source", .str source])).mapM
      (fun row => statusRow (replicationTasks replicator.activeTasks) row.doc) = .ok pairs)
    (target : String) (status : Status) :
    (target, status) ∈ pairs ↔ ∃ doc ∈ replicator.documents, doc.Replicates source ∧
      doc.target = target ∧
      statusOf (replicationTasks replicator.activeTasks) doc = .ok status := by
  rw [mem_mapM h]
  constructor
  · intro ⟨row, hrows, hok⟩
    obtain ⟨hdoc, hrep⟩ := mem_replications.mp ⟨row, hrows, rfl⟩
    exact ⟨row.doc, hdoc, hrep, statusRow_ok.mp hok⟩
  · intro ⟨doc, hdoc, hrep, hok⟩
    obtain ⟨row, hrows, he⟩ := mem_replications.mpr ⟨hdoc, hrep⟩
    exact ⟨row, hrows, by rw [he]; exact statusRow_ok.mpr hok⟩

theorem getReplicationStatus_ok (h : getReplicationStatus replicator source = .ok statuses) :
    ∃ pairs, (queryView Replications.map replicator.documents
        (.only [.str "source", .str source])).mapM
          (fun row => statusRow (replicationTasks replicator.activeTasks) row.doc) = .ok pairs ∧
      statuses = Dict.map sortStatuses (Dict.group pairs) := by
  unfold getReplicationStatus at h
  dsimp only [bind, Except.bind, throw, throwThe, MonadExceptOf.throw] at h
  split at h
  · cases h
  · split at h
    · cases h
    · split at h
      · cases h
      · rename_i pairs hpairs
        cases h
        exact ⟨pairs, hpairs, rfl⟩

theorem le_highest {rows : List Status} (hne : rows ≠ []) (seq : Nat) :
    seq ≤ highest rows ↔ ∃ status ∈ rows, seq ≤ status.seq := by
  induction rows with
  | nil => exact absurd rfl hne
  | cons status rest ih =>
    rw [show highest (status :: rest) = max status.seq (highest rest) from rfl, le_max_iff]
    by_cases hrest : rest = []
    · subst hrest
      simp [highest]
      omega
    · rw [ih hrest]
      simp

/-- The lowest checkpoint bounds what every target's highest one bounds. -/
theorem le_cleanupSeq (o : HashOrder String) (statuses : Dict String (List Status)) (seq : Nat) :
    (∀ n, cleanupSeq o statuses = some n → seq ≤ n) ↔
      ∀ target rows, statuses.lookup target = some rows → seq ≤ highest rows := by
  have hvalues : ∀ n, n ∈ Dict.values o (Dict.map highest statuses) ↔
      ∃ target rows, statuses.lookup target = some rows ∧ highest rows = n := by
    intro n
    simp only [Dict.mem_values, Dict.lookup_map, Option.map_eq_some_iff]
  constructor
  · intro h target rows hrows
    have hmem := (hvalues _).mpr ⟨target, rows, hrows, rfl⟩
    obtain ⟨n, hn⟩ := Option.isSome_iff_exists.mp (List.isSome_min?_of_mem hmem)
    exact (List.le_min?_iff hn).mp (h n hn) _ hmem
  · intro h n hn
    obtain ⟨target, rows, hrows, he⟩ := (hvalues n).mp (List.min?_mem hn)
    rw [← he]
    exact h target rows hrows

/-- A log of this partition is within the cleanup's range exactly when it is replicated. -/
theorem le_cleanupSeq_iff_replicated (o : HashOrder String)
    (h : getReplicationStatus replicator source = .ok statuses) (seq : Nat) :
    (∀ n, cleanupSeq o statuses = some n → seq ≤ n) ↔ Replicated replicator source seq := by
  obtain ⟨pairs, hpairs, rfl⟩ := getReplicationStatus_ok h
  have hlookup : ∀ target rows, (Dict.map sortStatuses (Dict.group pairs)).lookup target = some rows →
      rows ≠ [] ∧ ∀ status, status ∈ rows ↔ (target, status) ∈ pairs := by
    intro target rows hrows
    rw [Dict.lookup_map] at hrows
    obtain ⟨l, hl, rfl⟩ := Option.map_eq_some_iff.mp hrows
    refine ⟨?_, fun status => mem_sortStatuses.trans (Dict.mem_of_lookup_group hl)⟩
    intro hnil
    have hperm : l.Perm [] := hnil ▸ (List.perm_insertionSort _ l).symm
    exact (Dict.lookup_group.mp hl).1 (List.perm_nil.mp hperm)
  rw [le_cleanupSeq]
  constructor
  · intro hall doc hdoc hrep
    obtain ⟨row, hrow, rfl⟩ := mem_replications.mpr ⟨hdoc, hrep⟩
    obtain ⟨⟨target, status⟩, hok⟩ := mapM_isOk hpairs row hrow
    obtain ⟨rfl, _⟩ := statusRow_ok.mp hok
    have hpair : (row.doc.target, status) ∈ pairs := (mem_mapM hpairs _).mpr ⟨row, hrow, hok⟩
    cases hrows : (Dict.map sortStatuses (Dict.group pairs)).lookup row.doc.target with
    | none =>
      rw [Dict.lookup_map, Option.map_eq_none_iff, Dict.lookup_group_none] at hrows
      exact absurd rfl (hrows _ hpair)
    | some rows =>
      obtain ⟨hne, hmem⟩ := hlookup _ rows hrows
      obtain ⟨status', hstatus', hseq⟩ := (le_highest hne seq).mp (hall _ rows hrows)
      obtain ⟨doc', hdoc', hrep', htarget, hok'⟩ :=
        (mem_statuses hpairs _ _).mp ((hmem status').mp hstatus')
      exact ⟨doc', hdoc', hrep', htarget, status', hok', hseq⟩
  · intro hall target rows hrows
    obtain ⟨hne, hmem⟩ := hlookup target rows hrows
    obtain ⟨status, hstatus⟩ := List.exists_mem_of_ne_nil rows hne
    obtain ⟨doc, hdoc, hrep, rfl, _⟩ := (mem_statuses hpairs _ _).mp ((hmem status).mp hstatus)
    obtain ⟨doc', hdoc', hrep', htarget, status', hok, hseq⟩ := hall doc hdoc hrep
    refine (le_highest hne seq).mpr ⟨status', (hmem status').mpr ?_, hseq⟩
    exact (mem_statuses hpairs _ _).mpr ⟨doc', hdoc', hrep', htarget, hok⟩

end Replicated

/-! ## The rows of the update logs -/

/-- The rows the local cleanup and the cleanup of imported logs see of a log. -/
def seqRow (log : LogDocument) : LogRow where
  key := [.str "seq_num", .str log.partitionTag, .num log.seqNum]
  value := some log.ownerId
  doc := log

def revRow (log : LogDocument) : LogRow where
  key := [.str "rev", .str log.partitionTag, .str log.ownerId, .str log.revTo.str]
  value := none
  doc := log

theorem untilSeq_contains {tag t : String} {bound : Option Nat} {seq : Nat} :
    (UpdateLogs.untilSeq tag bound).contains [.str "seq_num", .str t, .num seq] = true ↔
      t = tag ∧ ∀ n, bound = some n → seq ≤ n := by
  rw [Range.contains, UpdateLogs.untilSeq, Key.cons_le_cons_self, Key.cons_le_cons_self,
    Bool.and_eq_true]
  by_cases ht : t = tag
  · subst ht
    cases bound <;> simp [Key.single_le_single]
  · have hne : Atom.str t ≠ Atom.str tag := by simpa using ht
    rw [Key.cons_le_cons_ne hne, Key.cons_le_cons_ne (Ne.symm hne)]
    refine ⟨fun h => ?_, fun h => absurd h.1 ht⟩
    exact absurd ((of_decide_eq_true h.2).antisymm (of_decide_eq_true h.1)) hne

theorem mem_untilSeq {logs : List LogDocument} {tag : String} {bound : Option Nat} {row : LogRow} :
    row ∈ queryView UpdateLogs.map logs (UpdateLogs.untilSeq tag bound) ↔
      row.doc ∈ logs ∧ row = seqRow row.doc ∧ row.doc.partitionTag = tag ∧
        ∀ n, bound = some n → row.doc.seqNum ≤ n := by
  obtain ⟨key, value, log⟩ := row
  rw [mem_queryView]
  refine and_congr_right (fun _ => ?_)
  simp only [UpdateLogs.map, List.mem_cons, List.not_mem_nil, or_false, Prod.mk.injEq]
  constructor
  · rintro ⟨hmap, hrange⟩
    rcases hmap with ⟨rfl, rfl⟩ | ⟨rfl, rfl⟩ | ⟨rfl, rfl⟩
    · exact absurd (Bool.and_eq_true_iff.mp hrange).1 (by simp [UpdateLogs.untilSeq, Key.le])
    · exact ⟨rfl, untilSeq_contains.mp hrange⟩
    · exact absurd (Bool.and_eq_true_iff.mp hrange).1 (by simp [UpdateLogs.untilSeq, Key.le])
  · rintro ⟨hrow, hrange⟩
    cases hrow
    exact ⟨Or.inr (Or.inl ⟨rfl, rfl⟩), untilSeq_contains.mpr hrange⟩

theorem mem_all {logs : List LogDocument} {row : LogRow} :
    row ∈ queryView UpdateLogs.map logs UpdateLogs.all ↔ row.doc ∈ logs ∧ row = revRow row.doc := by
  obtain ⟨key, value, log⟩ := row
  rw [mem_queryView]
  refine and_congr_right (fun _ => ?_)
  simp only [UpdateLogs.map, List.mem_cons, List.not_mem_nil, or_false, Prod.mk.injEq]
  constructor
  · intro ⟨hmap, hrange⟩
    rcases hmap with ⟨rfl, rfl⟩ | ⟨rfl, rfl⟩ | ⟨rfl, rfl⟩
    · exact absurd (Bool.and_eq_true_iff.mp hrange).1 (by simp [UpdateLogs.all, Key.le])
    · exact absurd (Bool.and_eq_true_iff.mp hrange).2 (by simp [UpdateLogs.all, Key.le])
    · rfl
  · intro hrow
    cases hrow
    exact ⟨Or.inr (Or.inr ⟨rfl, rfl⟩), by simp [Range.contains, UpdateLogs.all, Key.le]⟩

/-! ## What a run removes -/

/-- A loop that deletes logs by id leaves the ones it was not asked to delete. -/
theorem mem_foldl_cleanup {ι : Type} {step : Cleaned → ι → Cleaned} {removes : ι → List String}
    (hstep : ∀ s i log, log ∈ (step s i).logs ↔ log ∈ s.logs ∧ log.docId ∉ removes i)
    (items : List ι) (s : Cleaned) (log : LogDocument) :
    log ∈ (items.foldl step s).logs ↔ log ∈ s.logs ∧ ∀ i ∈ items, log.docId ∉ removes i := by
  induction items generalizing s with
  | nil => simp
  | cons i items ih => rw [List.foldl_cons, ih, hstep, and_assoc, List.forall_mem_cons]

theorem mem_cleanup (s : Cleaned) (docId : String) (log : LogDocument) :
    log ∈ (s.cleanup docId).logs ↔ log ∈ s.logs ∧ log.docId ∉ [docId] := by
  simp [Cleaned.cleanup]

/-- A log is known by its id. -/
theorem log_unique {db : LogDatabase} {log log' : LogDocument} (h : log ∈ db.logs)
    (h' : log' ∈ db.logs) (hid : log.docId = log'.docId) : log = log' :=
  List.inj_on_of_nodup_map db.unique h h' hid

/-- The local cleanup removes `log`. -/
def OwnDue (db : LogDatabase) (bound : Option Nat) (log : LogDocument) : Prop :=
  log.partitionTag = db.ownTag ∧ (∀ n, bound = some n → log.seqNum ≤ n) ∧ NotInConflict db log

theorem notInConflict_iff {db : LogDatabase} {log : LogDocument} :
    NotInConflict db log ↔ (checkConflict db (some log.ownerId)).1 = false := by
  unfold NotInConflict checkConflict
  cases h : db.docs log.ownerId <;> simp [h]

theorem mem_cleanLocal {db : LogDatabase} {bound : Option Nat} {log : LogDocument} :
    log ∈ ((queryView UpdateLogs.map db.logs (UpdateLogs.untilSeq db.ownTag bound)).foldl
        (cleanLocal db) ⟨0, db.logs⟩).logs ↔
      log ∈ db.logs ∧ ¬ OwnDue db bound log := by
  have hstep : ∀ s (row : LogRow) log, log ∈ (cleanLocal db s row).logs ↔ log ∈ s.logs ∧
      log.docId ∉ if (checkConflict db row.value).1 then [] else [row.doc.docId] := by
    intro s row log
    unfold cleanLocal
    split
    · simp
    · exact mem_cleanup s row.doc.docId log
  rw [mem_foldl_cleanup hstep]
  refine and_congr_right (fun hlog => ?_)
  constructor
  · intro hall hdue
    obtain ⟨htag, hbound, hfree⟩ := hdue
    have hrow := hall (seqRow log) (mem_untilSeq.mpr ⟨hlog, rfl, htag, hbound⟩)
    rw [notInConflict_iff] at hfree
    simp [seqRow, hfree] at hrow
  · intro hnot row hrow hmem
    obtain ⟨hdoc, he, htag, hbound⟩ := mem_untilSeq.mp hrow
    split at hmem
    · cases hmem
    · rename_i hfree
      have hid : log = row.doc := log_unique hlog hdoc (List.mem_singleton.mp hmem)
      subst hid
      rw [he] at hfree
      exact hnot ⟨htag, hbound, notInConflict_iff.mpr (by simpa [seqRow] using hfree)⟩

/-- The entry of a log in its group. -/
def entryOf (row : LogRow) : (String × String) × (String × String) :=
  ((row.doc.partitionTag, row.doc.ownerId), (row.doc.revTo.str, row.doc.docId))

theorem groupRows_all (logs : List LogDocument) :
    groupRows (queryView UpdateLogs.map logs UpdateLogs.all) =
      .ok (Dict.group ((queryView UpdateLogs.map logs UpdateLogs.all).map entryOf)) := by
  have hentry : ∀ row ∈ queryView UpdateLogs.map logs UpdateLogs.all,
      importedEntry row = .ok (entryOf row) := by
    intro row hrow
    rw [(mem_all.mp hrow).2]
    rfl
  unfold groupRows
  rw [mapM_eq_map hentry]
  rfl

theorem revRow_le {log log' : LogDocument} (hgroup : SameGroup log log')
    (h : (revRow log).le (revRow log')) : log.revTo.str ≤ log'.revTo.str := by
  unfold Row.le revRow at h
  rw [hgroup.1, hgroup.2, Key.cons_le_cons_self, Key.cons_le_cons_self, Key.cons_le_cons_self,
    Key.single_le_single] at h
  simpa using h

/-- The rows of a group. -/
def groupOf (logs : List LogDocument) (tag owner : String) : List LogRow :=
  (queryView UpdateLogs.map logs UpdateLogs.all).filter
    (fun row => (row.doc.partitionTag, row.doc.ownerId) = (tag, owner))

theorem mem_groupOf {logs : List LogDocument} {tag owner : String} {row : LogRow} :
    row ∈ groupOf logs tag owner ↔ row.doc ∈ logs ∧ row = revRow row.doc ∧
      row.doc.partitionTag = tag ∧ row.doc.ownerId = owner := by
  simp [groupOf, mem_all, and_assoc]

theorem lookup_groups {logs : List LogDocument} {tag owner : String}
    {entries : List (String × String)} :
    (Dict.group ((queryView UpdateLogs.map logs UpdateLogs.all).map entryOf)).lookup (tag, owner) =
        some entries ↔
      entries ≠ [] ∧ entries = (groupOf logs tag owner).map (fun row => (entryOf row).2) := by
  rw [Dict.lookup_group, List.filter_map, List.map_map]
  rfl

/-- The last row of a group is the one whose revision identifier is the last. -/
theorem groupOf_getLast {logs : List LogDocument} {tag owner : String} {last : LogRow}
    (h : (groupOf logs tag owner).getLast? = some last) {x : LogDocument} (hx : x ∈ logs)
    (htag : x.partitionTag = tag) (howner : x.ownerId = owner) :
    x.revTo.str ≤ last.doc.revTo.str := by
  obtain ⟨init, hinit⟩ := List.getLast?_eq_some_iff.mp h
  have hsorted : (groupOf logs tag owner).Pairwise Row.le :=
    (queryView_sorted _ _ _).sublist List.filter_sublist
  obtain ⟨_, hlast, htag', howner'⟩ := mem_groupOf.mp (List.mem_of_getLast? h)
  have hrow : revRow x ∈ groupOf logs tag owner := mem_groupOf.mpr ⟨hx, rfl, htag, howner⟩
  rw [hinit, List.mem_append, List.mem_singleton] at hrow
  rcases hrow with hrow | hrow
  · rw [hinit, List.pairwise_append] at hsorted
    have hle := hsorted.2.2 _ hrow last (List.mem_singleton.mpr rfl)
    rw [hlast] at hle
    exact revRow_le ⟨htag.trans htag'.symm, howner.trans howner'.symm⟩ hle
  · rw [← hrow]
    exact le_refl _

/-- What the rows of a group are compared with: the last of them decides. -/
def groupDue (db : LogDatabase) (group : (String × String) × List (String × String)) : Bool :=
  group.1.1 ≠ db.ownTag && !(checkConflict db (some group.1.2)).1 &&
    group.2.getLast?.any (fun e => caughtUp e.1 (checkConflict db (some group.1.2)).2 = .ok true)

/-- The cleanup of one group. -/
def cleanGroup (db : LogDatabase) (s : Cleaned)
    (group : (String × String) × List (String × String)) : Cleaned :=
  if groupDue db group then group.2.foldl (fun s e => s.cleanup e.2) s else s

theorem caughtUp_str (r : Revision) (raw : RawDoc) : ∃ b, caughtUp r.str raw = .ok b ∧
    (b = true ↔ ∀ rev, raw = .live rev → r.before rev) := by
  cases raw with
  | deleted => exact ⟨true, rfl, by simp⟩
  | live rev =>
    refine ⟨decide (r.before rev), ?_, by simp⟩
    simp only [caughtUp, parseRev_str]
    rfl

theorem cleanImported_eq {db : LogDatabase} {s : Cleaned} {tag owner : String}
    {entries : List (String × String)} {r : Revision} {id : String}
    (h : entries.getLast? = some (r.str, id)) :
    cleanImported db s ((tag, owner), entries) = .ok (cleanGroup db s ((tag, owner), entries)) := by
  unfold cleanImported cleanGroup groupDue
  by_cases htag : tag = db.ownTag
  · simp [htag]
  · obtain ⟨b, hb, _⟩ := caughtUp_str r (checkConflict db (some owner)).2
    cases hc : (checkConflict db (some owner)).1
    · cases b <;> simp [htag, h, hc, hb, bind, Except.bind, pure, Except.pure]
    · simp [htag, h, hc]

/-- The cleanup of imported logs removes `log`. -/
def ImportedDue (db : LogDatabase) (log : LogDocument) : Prop :=
  log.partitionTag ≠ db.ownTag ∧ ∀ doc, db.docs log.ownerId = some doc →
    doc.inConflict = false ∧ ∃ last, LastOfGroup db last log ∧ last.revTo.before doc.rev

/-- Two last logs of a group lead to the same revision. -/
theorem lastOfGroup_unique {db : LogDatabase} {last last' log : LogDocument}
    (h : LastOfGroup db last log) (h' : LastOfGroup db last' log) : last.revTo = last'.revTo :=
  str_injective (le_antisymm (h'.2.2 last h.1 h.2.1) (h.2.2 last' h'.1 h'.2.1))

section Imported
variable {db : LogDatabase} {logs : List LogDocument} {tag owner : String}
  {entries : List (String × String)}

theorem mem_entries {id : String}
    (h : entries = (groupOf logs tag owner).map (fun row => (entryOf row).2)) :
    id ∈ entries.map Prod.snd ↔
      ∃ log ∈ logs, log.partitionTag = tag ∧ log.ownerId = owner ∧ log.docId = id := by
  subst h
  simp only [List.map_map, List.mem_map, mem_groupOf]
  constructor
  · intro ⟨row, ⟨hdoc, _, htag, howner⟩, hid⟩
    exact ⟨row.doc, hdoc, htag, howner, hid⟩
  · intro ⟨log, hlog, htag, howner, hid⟩
    exact ⟨revRow log, ⟨hlog, rfl, htag, howner⟩, hid⟩

/-- A group is removed when its last log is no further than the document. The logs of other
partitions are all still there. -/
theorem groupDue_iff (hlogs : ∀ x, x.partitionTag ≠ db.ownTag → (x ∈ logs ↔ x ∈ db.logs))
    (hne : entries ≠ [])
    (h : entries = (groupOf logs tag owner).map (fun row => (entryOf row).2))
    {log : LogDocument} (htag : log.partitionTag = tag) (howner : log.ownerId = owner) :
    groupDue db ((tag, owner), entries) = true ↔ ImportedDue db log := by
  subst htag howner
  by_cases htag : log.partitionTag = db.ownTag
  · simp [groupDue, ImportedDue, htag]
  obtain ⟨row, hrow⟩ : ∃ row, (groupOf logs log.partitionTag log.ownerId).getLast? = some row := by
    cases hl : (groupOf logs log.partitionTag log.ownerId).getLast? with
    | some row => exact ⟨row, rfl⟩
    | none => rw [List.getLast?_eq_none_iff] at hl; simp [hl] at h; exact absurd h hne
  obtain ⟨hdoc, _, hrtag, hrowner⟩ := mem_groupOf.mp (List.mem_of_getLast? hrow)
  have hlast : LastOfGroup db row.doc log := by
    refine ⟨(hlogs _ (by rw [hrtag]; exact htag)).mp hdoc, ⟨hrtag, hrowner⟩, ?_⟩
    intro x hx hgroup
    have hx' := (hlogs x (by rw [hgroup.1]; exact htag)).mpr hx
    exact groupOf_getLast hrow hx' hgroup.1 hgroup.2
  have hentry : entries.getLast? = some (row.doc.revTo.str, row.doc.docId) := by
    rw [h, List.getLast?_map, hrow]; rfl
  obtain ⟨b, hb, hiff⟩ := caughtUp_str row.doc.revTo (checkConflict db (some log.ownerId)).2
  cases hd : db.docs log.ownerId with
  | none =>
    have hcheck : checkConflict db (some log.ownerId) = (false, .deleted) := by
      simp [checkConflict, hd]
    rw [hcheck] at hb hiff
    have htrue : b = true := hiff.mpr (by simp)
    simp [groupDue, ImportedDue, hentry, hcheck, hb, hd, htag, htrue]
  | some doc =>
    have hcheck : checkConflict db (some log.ownerId) = (doc.inConflict, .live doc.rev) := by
      simp [checkConflict, hd]
    rw [hcheck] at hb hiff
    have hlive : b = true ↔ row.doc.revTo.before doc.rev := by simpa using hiff
    have hbefore : (∃ last, LastOfGroup db last log ∧ last.revTo.before doc.rev) ↔
        row.doc.revTo.before doc.rev := by
      constructor
      · intro ⟨last, hl, hbefore⟩
        rw [lastOfGroup_unique hl hlast] at hbefore
        exact hbefore
      · intro hbefore
        exact ⟨_, hlast, hbefore⟩
    simp [groupDue, ImportedDue, hentry, hcheck, hb, hd, htag, hbefore, hlive]

end Imported

theorem mem_cleanGroup (db : LogDatabase) (s : Cleaned)
    (group : (String × String) × List (String × String)) (log : LogDocument) :
    log ∈ (cleanGroup db s group).logs ↔ log ∈ s.logs ∧
      log.docId ∉ if groupDue db group then group.2.map Prod.snd else [] := by
  unfold cleanGroup
  split
  · rw [mem_foldl_cleanup (fun s e log => mem_cleanup s e.2 log)]
    simp
    grind
  · simp

/-- What one run over the groups removes, the logs of other partitions being all there. -/
theorem mem_cleanGroups {db : LogDatabase} {s : Cleaned} (o : HashOrder (String × String))
    (hlogs : ∀ x, x.partitionTag ≠ db.ownTag → (x ∈ s.logs ↔ x ∈ db.logs))
    (hsub : ∀ x ∈ s.logs, x ∈ db.logs) (log : LogDocument) :
    log ∈ ((Dict.items o (Dict.group ((queryView UpdateLogs.map s.logs UpdateLogs.all).map
        entryOf))).foldl (cleanGroup db) s).logs ↔ log ∈ s.logs ∧ ¬ ImportedDue db log := by
  rw [mem_foldl_cleanup (mem_cleanGroup db)]
  refine and_congr_right (fun hlog => ?_)
  constructor
  · intro hall hdue
    -- the group of the log is among the items
    have hmem : revRow log ∈ groupOf s.logs log.partitionTag log.ownerId :=
      mem_groupOf.mpr ⟨hlog, rfl, rfl, rfl⟩
    have hne : (groupOf s.logs log.partitionTag log.ownerId).map (fun row => (entryOf row).2) ≠ [] :=
      List.ne_nil_of_mem (List.mem_map_of_mem hmem)
    have hitem := Dict.mem_items (o := o).mpr (lookup_groups.mpr ⟨hne, rfl⟩)
    have hkept := hall _ hitem
    rw [if_pos ((groupDue_iff hlogs hne rfl rfl rfl).mpr hdue)] at hkept
    exact hkept ((mem_entries rfl).mpr ⟨log, hlog, rfl, rfl, rfl⟩)
  · intro hnot group hgroup hmem
    obtain ⟨⟨tag, owner⟩, entries⟩ := group
    obtain ⟨hne, hentries⟩ := lookup_groups.mp (Dict.mem_items.mp hgroup)
    split at hmem
    · rename_i hdue
      obtain ⟨x, hx, htag, howner, hid⟩ := (mem_entries hentries).mp hmem
      have he : x = log := log_unique (hsub x hx) (hsub log hlog) hid
      subst he
      exact hnot ((groupDue_iff hlogs hne hentries htag howner).mp hdue)
    · cases hmem

/-- A run that gets past the replication status succeeds, and this is what it removes. -/
theorem cleanupLogs_spec (o : HashOrder String) (o' : HashOrder (String × String))
    (db : LogDatabase) (replicator : Replicator) {statuses : Dict String (List Status)}
    (h : getReplicationStatus replicator db.name = .ok statuses) :
    ∃ s, cleanupLogs o o' db replicator = .ok s ∧ ∀ log, log ∈ s.logs ↔
      log ∈ db.logs ∧ ¬ OwnDue db (cleanupSeq o statuses) log ∧ ¬ ImportedDue db log := by
  let s := (queryView UpdateLogs.map db.logs
    (UpdateLogs.untilSeq db.ownTag (cleanupSeq o statuses))).foldl (cleanLocal db) ⟨0, db.logs⟩
  have hlocal : ∀ log, log ∈ s.logs ↔ log ∈ db.logs ∧ ¬ OwnDue db (cleanupSeq o statuses) log :=
    fun log => mem_cleanLocal
  have hsub : ∀ x ∈ s.logs, x ∈ db.logs := fun x hx => ((hlocal x).mp hx).1
  have hlogs : ∀ x, x.partitionTag ≠ db.ownTag → (x ∈ s.logs ↔ x ∈ db.logs) := by
    intro x hx
    rw [hlocal]
    exact and_iff_left (fun hdue => hx hdue.1)
  have hrun : cleanupLogs o o' db replicator = .ok ((Dict.items o' (Dict.group
      ((queryView UpdateLogs.map s.logs UpdateLogs.all).map entryOf))).foldl (cleanGroup db) s) := by
    unfold cleanupLogs
    simp only [h, bind, Except.bind]
    rw [show List.foldl (cleanLocal db) _ _ = s from rfl, groupRows_all]
    refine foldlM_eq_foldl ?_ s
    intro group hgroup s'
    obtain ⟨⟨tag, owner⟩, entries⟩ := group
    obtain ⟨hne, hentries⟩ := lookup_groups.mp (Dict.mem_items.mp hgroup)
    cases hl : (groupOf s.logs tag owner).getLast? with
    | none =>
      rw [List.getLast?_eq_none_iff] at hl
      rw [hl] at hentries
      exact absurd hentries hne
    | some last =>
      have hlast : entries.getLast? = some (last.doc.revTo.str, last.doc.docId) := by
        rw [hentries, List.getLast?_map, hl]
        rfl
      exact cleanImported_eq hlast
  refine ⟨_, hrun, fun log => ?_⟩
  rw [mem_cleanGroups o' hlogs hsub, hlocal, and_assoc]

/-! ## Safety -/

/-- A group has a last log. -/
theorem exists_lastOfGroup {db : LogDatabase} {log : LogDocument} (h : log ∈ db.logs) :
    ∃ last, LastOfGroup db last log := by
  have hmem : revRow log ∈ groupOf db.logs log.partitionTag log.ownerId :=
    mem_groupOf.mpr ⟨h, rfl, rfl, rfl⟩
  cases hl : (groupOf db.logs log.partitionTag log.ownerId).getLast? with
  | none =>
    rw [List.getLast?_eq_none_iff.mp hl] at hmem
    cases hmem
  | some last =>
    obtain ⟨hlast, _, htag, howner⟩ := mem_groupOf.mp (List.mem_of_getLast? hl)
    exact ⟨last.doc, hlast, ⟨htag, howner⟩,
      fun x hx hgroup => groupOf_getLast hl hx hgroup.1 hgroup.2⟩

/-- What is removed of this partition's logs is never needed. -/
theorem ownDue_safe (o : HashOrder String) {db : LogDatabase} {replicator : Replicator}
    {statuses : Dict String (List Status)}
    (h : getReplicationStatus replicator db.name = .ok statuses) {log : LogDocument}
    (hdue : OwnDue db (cleanupSeq o statuses) log) :
    NotInConflict db log ∧ Replicated replicator db.name log.seqNum :=
  ⟨hdue.2.2, (le_cleanupSeq_iff_replicated o h log.seqNum).mp hdue.2.1⟩

/-- A run removes no log that is still needed exactly when in every group with a log ahead of
its document the last log is ahead. -/
theorem cleanupLogs_safe_iff (o : HashOrder String) (o' : HashOrder (String × String))
    (db : LogDatabase) (replicator : Replicator) (s : Cleaned)
    (h : cleanupLogs o o' db replicator = .ok s) :
    CleanupSafe db replicator s.logs ↔ LastLogLeads db := by
  obtain ⟨statuses, hstatuses⟩ : ∃ statuses,
      getReplicationStatus replicator db.name = .ok statuses := by
    cases hs : getReplicationStatus replicator db.name with
    | ok statuses => exact ⟨statuses, rfl⟩
    | error e => simp [cleanupLogs, hs, bind, Except.bind] at h
  obtain ⟨s', hs', hleft⟩ := cleanupLogs_spec o o' db replicator hstatuses
  rw [h] at hs'
  cases hs'
  constructor
  · intro hsafe log hlog htag doc hdoc hfree hahead
    obtain ⟨last, hlast⟩ := exists_lastOfGroup hlog
    refine ⟨last, hlast, fun hbefore => ?_⟩
    have hdue : ImportedDue db log := by
      refine ⟨htag, fun doc' hdoc' => ?_⟩
      rw [hdoc] at hdoc'
      cases hdoc'
      exact ⟨hfree, last, hlast, hbefore⟩
    have hgone : log ∉ s.logs := fun hin => ((hleft log).mp hin).2.2 hdue
    have hle := (hsafe.imported log hlog hgone htag doc hdoc).2
    omega
  · intro hleads
    refine ⟨?_, ?_⟩
    · intro log hlog hgone htag doc hdoc
      have hdue : ImportedDue db log := by
        by_contra hnot
        exact hgone ((hleft log).mpr ⟨hlog, fun hown => htag hown.1, hnot⟩)
      obtain ⟨hfree, last, hlast, hbefore⟩ := hdue.2 doc hdoc
      refine ⟨hfree, ?_⟩
      by_contra hahead
      obtain ⟨last', hlast', hnot⟩ := hleads log hlog htag doc hdoc hfree (by omega)
      rw [lastOfGroup_unique hlast' hlast] at hnot
      exact hnot hbefore
    · intro log hlog hgone htag
      have hdue : OwnDue db (cleanupSeq o statuses) log := by
        by_contra hnot
        exact hgone ((hleft log).mpr ⟨hlog, hnot, fun himp => himp.1 htag⟩)
      exact ownDue_safe o hstatuses hdue

/-! Two logs were imported from partition `b`, for the ninth and the tenth revision of a
document that is at revision `index`. -/

def idleReplicator : Replicator := ⟨true, [1, 2, 0], [], []⟩

def importedLogs : List LogDocument :=
  [⟨"log9", "doc", "b", 1, ⟨9, "x"⟩⟩, ⟨"log10", "doc", "b", 2, ⟨10, "y"⟩⟩]

def behind (index : Nat) : LogDatabase where
  name := "feat"
  ownTag := "a"
  logs := importedLogs
  docs := fun _ => some ⟨⟨index, "x"⟩, false⟩
  unique := by decide

/-- Both logs go once the document is at the tenth revision. -/
theorem cleanup_after_tenth : CleanupSafe (behind 10) idleReplicator [] ↔ LastLogLeads (behind 10) :=
  cleanupLogs_safe_iff .stored .stored (behind 10) idleReplicator ⟨2, []⟩ (by decide)

/-- At the ninth both go already: the last row of the group is the ninth's. -/
theorem cleanup_loses_tenth :
    cleanupLogs .stored .stored (behind 9) idleReplicator = .ok ⟨2, []⟩ ∧
    ¬ CleanupSafe (behind 9) idleReplicator [] := by
  refine ⟨by decide, fun hsafe => ?_⟩
  have h := hsafe.imported ⟨"log10", "doc", "b", 2, ⟨10, "y"⟩⟩ (by decide) (by decide) (by decide)
    ⟨⟨9, "x"⟩, false⟩ rfl
  exact absurd h.2 (by decide)

end Feat.Database
