import Feat.Lib.Run
import Feat.Database.Emu

/- The view cache of the emulated database.

   The cache is fresh when the rows it holds for a live document are the rows the
   map function makes of it. Saving and deleting expire it, and so does not
   everything that changes a stored document: `save_attachment` changes the
   entries and the revision of the document in place, and a save that fails on an
   attachment has replaced the document by then. As long as neither happens to a
   document with rows in the cache, the cache stays fresh in every run and
   `query_view` answers as if there were none (`cache_fresh`). -/
namespace Feat.Database
open Hash Transition

namespace EmuDatabase
variable {Fields K V : Type}

/-! ## Operations and runs -/

/-- The operations of the database that read or write documents. -/
inductive Op (Fields K : Type) where
  | saveDoc (o : HashOrder String) (body : Option (Body Fields)) (docId : Option String)
      (following : Option (Dict String String))
  | saveAttachment (docId revision : String) (attachment : Attachment)
  | deleteDoc (docId revision : String)
  | copyDoc (o : HashOrder String) (docId destinationId : String) (rev : Option String)
  | queryView (oDocs : HashOrder String) (oKeys : HashOrder K) (name : String)
      (options : ViewOptions K)

/-- The state an operation leaves. -/
def run [Inhabited Fields] [LinearOrder K] (views : Views Fields K V) (db : EmuDatabase Fields K V) :
    Op Fields K → EmuDatabase Fields K V
  | .saveDoc o body docId following => (db.saveDoc o body docId following).2
  | .saveAttachment docId revision attachment => (db.saveAttachment docId revision attachment).2
  | .deleteDoc docId revision => (db.deleteDoc docId revision).2
  | .copyDoc o docId destinationId rev => (db.copyDoc o docId destinationId rev).2
  | .queryView oDocs oKeys name options => (db.queryView oDocs oKeys views name options).2

/-- `query_view` without the cache: the map function is called on every live document. -/
def queryViewUncached [LinearOrder K] (oDocs : HashOrder String) (oKeys : HashOrder K)
    (views : Views Fields K V) (db : EmuDatabase Fields K V) (name : String)
    (options : ViewOptions K) : Except EmuError (List (ViewRow Fields K V)) :=
  if badOptions views name options then .error .valueError
  else .ok (finishQuery oKeys views name options db ((db.iterdocs oDocs).flatMap (mapRows views name)))

/-- The rows in the cache are what the views make of the documents as they are. -/
def CacheFresh (views : Views Fields K V) (db : EmuDatabase Fields K V) : Prop :=
  ∀ id doc name rows, db.documents.lookup id = some doc → doc.deleted = false →
    db.getCache id name = some rows → rows = mapRows views name doc

/-- Documents are stored under their own id. -/
def Keyed (db : EmuDatabase Fields K V) : Prop :=
  ∀ id doc, db.documents.lookup id = some doc → doc.id = id

/-- An attachment of the document is neither passed along nor stored. -/
def attachmentMissing (db : EmuDatabase Fields K V) (doc : Doc Fields)
    (following : Option (Dict String String)) : Prop :=
  ∃ name stub, (doc.attachments.getD ∅).lookup name = some stub ∧
    if stub.follows then following.bind (fun f => f.lookup name) = none
    else name ∉ (db.attachments.lookup doc.id).getD ∅

/-- When a save gets past the revision check and then fails on an attachment, the document it
is about has no rows in the cache. -/
def SaveHarmless (db : EmuDatabase Fields K V) (body : Body Fields) (docId : Option String)
    (following : Option (Dict String String)) : Prop :=
  ∀ doc db', db.setIdAndRevision body docId = (.ok doc, db') →
    db.attachmentMissing doc following → doc.id ∉ db.viewCache

/-- The step does not change a document behind the back of the cache. -/
def Harmless (db : EmuDatabase Fields K V) : Op Fields K → Prop
  | .saveDoc _ (some body) docId following => db.SaveHarmless body docId following
  | .saveAttachment docId _ _ => docId ∉ db.viewCache
  | .copyDoc _ docId destinationId rev => ∀ doc, db.openDoc docId = .ok doc →
      db.SaveHarmless { doc.toBody with id := some destinationId, rev := rev } none none
  | _ => True

/-! ## Writing -/

theorem getCache_of_not_mem {db : EmuDatabase Fields K V} {id name : String}
    (h : id ∉ db.viewCache) : db.getCache id name = none := by
  rw [getCache, AList.lookup_eq_none.mpr h, Option.bind_none]

/-- Writing one document keeps the cache fresh when the document has no rows there afterwards
and the rows of the others stay. -/
theorem CacheFresh.write {views : Views Fields K V} {db db' : EmuDatabase Fields K V} {id : String}
    {doc : Doc Fields} (h : CacheFresh views db)
    (hdocs : db'.documents = db.documents.insert id doc) (hgone : id ∉ db'.viewCache)
    (hrest : ∀ id', id' ≠ id → db'.viewCache.lookup id' = db.viewCache.lookup id') :
    CacheFresh views db' := by
  intro id' doc' name rows hlookup hlive hcache
  by_cases hid : id' = id
  · subst hid
    rw [getCache_of_not_mem hgone] at hcache
    cases hcache
  · rw [hdocs, AList.lookup_insert_ne hid] at hlookup
    rw [getCache, hrest id' hid] at hcache
    exact h id' doc' name rows hlookup hlive hcache

theorem Keyed.write {db db' : EmuDatabase Fields K V} {id : String} {doc : Doc Fields}
    (h : Keyed db) (hdocs : db'.documents = db.documents.insert id doc) (hid : doc.id = id) :
    Keyed db' := by
  intro id' doc' hlookup
  rw [hdocs] at hlookup
  by_cases he : id' = id
  · subst he
    rw [AList.lookup_insert] at hlookup
    cases hlookup
    exact hid
  · rw [AList.lookup_insert_ne he] at hlookup
    exact h id' doc' hlookup

/-- What `_set_id_and_revision` leaves alone. -/
theorem setIdAndRevision_frame (db : EmuDatabase Fields K V) (body : Body Fields)
    (docId : Option String) :
    (db.setIdAndRevision body docId).2.documents = db.documents ∧
    (db.setIdAndRevision body docId).2.attachments = db.attachments ∧
    (db.setIdAndRevision body docId).2.viewCache = db.viewCache := by
  have hstore : ∀ (db : EmuDatabase Fields K V) id,
      (setIdAndRevision.store body db id).2.documents = db.documents ∧
      (setIdAndRevision.store body db id).2.attachments = db.attachments ∧
      (setIdAndRevision.store body db id).2.viewCache = db.viewCache := by
    intro db id
    unfold setIdAndRevision.store
    split <;> exact ⟨rfl, rfl, rfl⟩
  unfold setIdAndRevision
  split
  · split
    · exact ⟨rfl, rfl, rfl⟩
    · exact hstore db _
  · have hgen : (db.generateId body.type).2.documents = db.documents ∧
        (db.generateId body.type).2.attachments = db.attachments ∧
        (db.generateId body.type).2.viewCache = db.viewCache := by
      unfold generateId
      split <;> exact ⟨rfl, rfl, rfl⟩
    obtain ⟨h₁, h₂, h₃⟩ := hstore (db.generateId body.type).2 (db.generateId body.type).1
    exact ⟨h₁.trans hgen.1, h₂.trans hgen.2.1, h₃.trans hgen.2.2⟩

/-- Following the attachments fails only when one is missing. -/
theorem followAttachments_failure {following : Option (Dict String String)} {names : List String}
    {stubs : Dict String Stub} {bodies : Dict String String} {e : EmuError}
    (hnodup : names.Nodup) (h : (followAttachments following names stubs bodies).1 = some e) :
    ∃ name ∈ names, ∃ stub, stubs.lookup name = some stub ∧
      if stub.follows then following.bind (fun f => f.lookup name) = none else name ∉ bodies := by
  induction names generalizing stubs bodies with
  | nil => cases h
  | cons name names ih =>
    obtain ⟨hname, hnodup⟩ := List.nodup_cons.mp hnodup
    -- a later name that is missing was missing to begin with
    have hlater : ∀ (stubs' : Dict String Stub) (bodies' : Dict String String),
        (∀ n ≠ name, stubs'.lookup n = stubs.lookup n) → (∀ n ≠ name, n ∈ bodies' ↔ n ∈ bodies) →
        (followAttachments following names stubs' bodies').1 = some e →
        ∃ n ∈ name :: names, ∃ stub, stubs.lookup n = some stub ∧
          if stub.follows then following.bind (fun f => f.lookup n) = none else n ∉ bodies := by
      intro stubs' bodies' hstubs hbodies hfail
      obtain ⟨n, hn, stub, hstub, hmissing⟩ := ih hnodup hfail
      have hne : n ≠ name := fun he => hname (he ▸ hn)
      refine ⟨n, List.mem_cons_of_mem _ hn, stub, (hstubs n hne).symm.trans hstub, ?_⟩
      rw [hbodies n hne] at hmissing
      exact hmissing
    unfold followAttachments at h
    split at h
    · exact hlater stubs bodies (fun _ _ => rfl) (fun _ _ => Iff.rfl) h
    · rename_i stub hstub
      split at h
      · rename_i hfollows
        split at h
        · exact ⟨name, List.mem_cons_self, stub, hstub, by rw [if_pos hfollows]; rfl⟩
        · split at h
          · rename_i hnone
            refine ⟨name, List.mem_cons_self, stub, hstub, ?_⟩
            rw [if_pos hfollows, Option.bind_some]
            exact hnone
          · refine hlater _ _ (fun n hn => AList.lookup_insert_ne hn) (fun n hn => ?_) h
            rw [AList.mem_insert]
            exact or_iff_right hn
      · rename_i hfollows
        split at h
        · exact hlater stubs bodies (fun _ _ => rfl) (fun _ _ => Iff.rfl) h
        · rename_i hmem
          exact ⟨name, List.mem_cons_self, stub, hstub, by rw [if_neg hfollows]; exact hmem⟩

/-- What storing a document does to the documents and the cache. -/
theorem storeDoc_effect (o : HashOrder String) (db : EmuDatabase Fields K V) (doc : Doc Fields)
    (following : Option (Dict String String)) :
    ∃ doc', doc'.id = doc.id ∧
      (storeDoc o db doc following).2.documents = db.documents.insert doc.id doc' ∧
      ((storeDoc o db doc following).2.viewCache = db.viewCache.erase doc.id ∨
        (storeDoc o db doc following).2.viewCache = db.viewCache ∧
          db.attachmentMissing doc following) := by
  unfold storeDoc
  dsimp only
  generalize hfollow : followAttachments following (o.arrange (doc.attachments.getD ∅).keys)
    (doc.attachments.getD ∅) ((db.attachments.lookup doc.id).getD ∅) = followed
  obtain ⟨failure, stubs, bodies⟩ := followed
  refine ⟨{ doc with attachments := doc.attachments.map (fun _ => stubs) }, rfl, ?_⟩
  cases failure with
  | none => exact ⟨rfl, Or.inl rfl⟩
  | some e =>
    refine ⟨rfl, Or.inr ⟨rfl, ?_⟩⟩
    have hfail : (followAttachments following (o.arrange (doc.attachments.getD ∅).keys)
        (doc.attachments.getD ∅) ((db.attachments.lookup doc.id).getD ∅)).1 = some e := by
      rw [hfollow]
    obtain ⟨name, _, stub, hstub, hmissing⟩ := followAttachments_failure
      (o.nodup_arrange.mpr (doc.attachments.getD ∅).nodupKeys) hfail
    exact ⟨name, stub, hstub, hmissing⟩

section Fresh
variable {views : Views Fields K V} {db : EmuDatabase Fields K V}

theorem saveDoc_fresh (o : HashOrder String) (body : Option (Body Fields)) (docId : Option String)
    (following : Option (Dict String String)) (hkeyed : Keyed db) (hfresh : CacheFresh views db)
    (hharmless : ∀ b, body = some b → db.SaveHarmless b docId following) :
    Keyed (db.saveDoc o body docId following).2 ∧
    CacheFresh views (db.saveDoc o body docId following).2 := by
  unfold saveDoc
  split
  · exact ⟨hkeyed, hfresh⟩
  · rename_i body
    obtain ⟨hdocs, hatts, hcache⟩ := setIdAndRevision_frame db body docId
    split
    · rename_i e db' hset
      rw [hset] at hdocs hcache
      refine ⟨fun id doc h => hkeyed id doc (hdocs ▸ h), ?_⟩
      intro id doc name rows hlookup hlive hrows
      refine hfresh id doc name rows (hdocs ▸ hlookup) hlive ?_
      rw [getCache] at hrows ⊢
      rw [← hrows]
      exact congrArg (fun c => (AList.lookup id c).bind _) hcache.symm
    · rename_i doc db' hset
      rw [hset] at hdocs hatts hcache
      obtain ⟨doc', hid, hstored, hexpired⟩ := storeDoc_effect o db' doc following
      rw [show db'.documents = db.documents from hdocs] at hstored
      refine ⟨hkeyed.write hstored hid, hfresh.write hstored ?_ ?_⟩
      · rcases hexpired with h | ⟨h, hmissing⟩
        · rw [h]
          exact fun h => (AList.mem_erase.mp h).1 rfl
        · rw [h, show db'.viewCache = db.viewCache from hcache]
          refine hharmless body rfl doc db' hset ?_
          unfold attachmentMissing at hmissing ⊢
          rw [← show db'.attachments = db.attachments from hatts]
          exact hmissing
      · intro id hne
        rcases hexpired with h | ⟨h, _⟩
        · rw [h, AList.lookup_erase_ne hne, show db'.viewCache = db.viewCache from hcache]
        · rw [h, show db'.viewCache = db.viewCache from hcache]

theorem copyDoc_fresh (o : HashOrder String) (docId destinationId : String) (rev : Option String)
    (hkeyed : Keyed db) (hfresh : CacheFresh views db)
    (hharmless : db.Harmless (.copyDoc o docId destinationId rev : Op Fields K)) :
    Keyed (db.copyDoc o docId destinationId rev).2 ∧
    CacheFresh views (db.copyDoc o docId destinationId rev).2 := by
  unfold copyDoc
  split
  · exact ⟨hkeyed, hfresh⟩
  · rename_i doc hopen
    refine saveDoc_fresh o _ none none hkeyed hfresh ?_
    intro b hb
    cases hb
    exact hharmless doc hopen

theorem deleteDoc_fresh [Inhabited Fields] (docId revision : String) (hkeyed : Keyed db)
    (hfresh : CacheFresh views db) :
    Keyed (db.deleteDoc docId revision).2 ∧ CacheFresh views (db.deleteDoc docId revision).2 := by
  unfold deleteDoc
  split
  · exact ⟨hkeyed, hfresh⟩
  · rename_i doc hlookup
    split
    · exact ⟨hkeyed, hfresh⟩
    · split
      · exact ⟨hkeyed, hfresh⟩
      · simp only
        split
        · refine ⟨hkeyed.write rfl rfl, hfresh.write rfl ?_ ?_⟩
          · exact fun h => (AList.mem_erase.mp h).1 rfl
          · exact fun id hne => AList.lookup_erase_ne hne
        · have hdocs : ∀ d d' : Doc Fields, (db.documents.insert doc.id d).insert doc.id d' =
              db.documents.insert doc.id d' := fun d d' => AList.insert_insert _
          refine ⟨hkeyed.write (hdocs _ _) rfl, hfresh.write (hdocs _ _) ?_ ?_⟩
          · exact fun h => (AList.mem_erase.mp h).1 rfl
          · exact fun id hne => AList.lookup_erase_ne hne

theorem saveAttachment_fresh (docId revision : String) (attachment : Attachment)
    (hkeyed : Keyed db) (hfresh : CacheFresh views db) (hharmless : docId ∉ db.viewCache) :
    Keyed (db.saveAttachment docId revision attachment).2 ∧
    CacheFresh views (db.saveAttachment docId revision attachment).2 := by
  unfold saveAttachment
  split
  · exact ⟨hkeyed, hfresh⟩
  · rename_i doc hlookup
    have hid : doc.id = docId := hkeyed docId doc hlookup
    dsimp only
    split
    · exact ⟨hkeyed.write rfl hid, hfresh.write rfl hharmless (fun _ _ => rfl)⟩
    · have hdocs : ∀ d d' : Doc Fields, (db.documents.insert docId d).insert docId d' =
          db.documents.insert docId d' := fun d d' => AList.insert_insert _
      exact ⟨hkeyed.write (hdocs _ _) hid, hfresh.write (hdocs _ _) hharmless (fun _ _ => rfl)⟩

/-! ## Reading -/

/-- The live documents, as they are iterated over. -/
theorem mem_iterdocs {o : HashOrder String} {doc : Doc Fields} :
    doc ∈ db.iterdocs o ↔
      (∃ id, db.documents.lookup id = some doc) ∧ doc.deleted = false := by
  simp [iterdocs, Dict.mem_values]

theorem getCache_setCache (db : EmuDatabase Fields K V) (id name id' name' : String)
    (rows : List (MapRow K V)) :
    (db.setCache id name rows).getCache id' name' =
      if id' = id ∧ name' = name then some rows else db.getCache id' name' := by
  unfold getCache setCache
  by_cases hid : id' = id
  · subst hid
    rw [AList.lookup_insert, Option.bind_some]
    by_cases hname : name' = name
    · subst hname
      rw [AList.lookup_insert, if_pos ⟨rfl, rfl⟩]
    · rw [AList.lookup_insert_ne hname, if_neg (fun h => hname h.2)]
      cases db.viewCache.lookup id' <;> simp
  · rw [AList.lookup_insert_ne hid, if_neg (fun h => hid h.1)]

/-- Mapping a document gives the rows of its map function and keeps the cache fresh. -/
theorem performMap_spec (hfresh : CacheFresh views db) (name : String) {doc : Doc Fields}
    (hdoc : db.documents.lookup doc.id = some doc) (hlive : doc.deleted = false) :
    (performMap views name db doc).1 = mapRows views name doc ∧
    (performMap views name db doc).2.documents = db.documents ∧
    CacheFresh views (performMap views name db doc).2 := by
  unfold performMap
  split
  · rename_i row rows hcache
    exact ⟨hfresh doc.id doc name _ hdoc hlive hcache, rfl, hfresh⟩
  · refine ⟨rfl, rfl, ?_⟩
    intro id' doc' name' rows hlookup hlive' hcache
    rw [getCache_setCache] at hcache
    split at hcache
    · rename_i he
      rw [he.1, show (db.setCache doc.id name (mapRows views name doc)).documents = db.documents from rfl,
        hdoc] at hlookup
      cases hlookup
      cases hcache
      rw [he.2]
    · exact hfresh id' doc' name' rows hlookup hlive' hcache

theorem performMaps_spec (name : String) {docs : List (Doc Fields)} {db : EmuDatabase Fields K V}
    (hfresh : CacheFresh views db)
    (hdocs : ∀ doc ∈ docs, db.documents.lookup doc.id = some doc ∧ doc.deleted = false) :
    (performMaps views name docs db).1 = docs.flatMap (mapRows views name) ∧
    (performMaps views name docs db).2.documents = db.documents ∧
    CacheFresh views (performMaps views name docs db).2 := by
  induction docs generalizing db with
  | nil => exact ⟨rfl, rfl, hfresh⟩
  | cons doc docs ih =>
    obtain ⟨hdoc, hlive⟩ := hdocs doc List.mem_cons_self
    obtain ⟨hrows, hsame, hfresh'⟩ := performMap_spec hfresh name hdoc hlive
    obtain ⟨hrest, hsame', hfresh''⟩ := ih hfresh' (fun d hd => by
      rw [hsame]
      exact hdocs d (List.mem_cons_of_mem doc hd))
    refine ⟨?_, hsame'.trans hsame, hfresh''⟩
    rw [performMaps, List.flatMap_cons, ← hrows, ← hrest]

/-- Of the database, finishing a query reads the documents only. -/
theorem finishQuery_documents [LinearOrder K] (o : HashOrder K) (name : String)
    (options : ViewOptions K) {db db' : EmuDatabase Fields K V} (h : db'.documents = db.documents)
    (rows : List (MapRow K V)) :
    finishQuery o views name options db' rows = finishQuery o views name options db rows := by
  have hopen : ∀ id, db'.openDoc id = db.openDoc id := by
    intro id
    rw [openDoc, openDoc, h]
  unfold finishQuery includeDocs
  simp only [hopen]

/-- With a fresh cache a query answers as without one, and leaves the cache fresh. -/
theorem queryView_spec [LinearOrder K] (oDocs : HashOrder String) (oKeys : HashOrder K)
    (name : String) (options : ViewOptions K) (hkeyed : Keyed db) (hfresh : CacheFresh views db) :
    (db.queryView oDocs oKeys views name options).1 =
      db.queryViewUncached oDocs oKeys views name options ∧
    Keyed (db.queryView oDocs oKeys views name options).2 ∧
    CacheFresh views (db.queryView oDocs oKeys views name options).2 := by
  have hdocs : ∀ doc ∈ db.iterdocs oDocs,
      db.documents.lookup doc.id = some doc ∧ doc.deleted = false := by
    intro doc hdoc
    obtain ⟨⟨id, hlookup⟩, hlive⟩ := mem_iterdocs.mp hdoc
    rw [hkeyed id doc hlookup]
    exact ⟨hlookup, hlive⟩
  obtain ⟨hrows, hsame, hfresh'⟩ := performMaps_spec name hfresh hdocs
  unfold queryView queryViewUncached
  split
  · exact ⟨rfl, hkeyed, hfresh⟩
  · refine ⟨?_, fun id doc h => hkeyed id doc (hsame ▸ h), hfresh'⟩
    show Except.ok (finishQuery oKeys views name options
      (performMaps views name (db.iterdocs oDocs) db).2
      (performMaps views name (db.iterdocs oDocs) db).1) = _
    rw [hrows, finishQuery_documents oKeys name options hsame]

end Fresh

/-! ## Runs -/

variable [Inhabited Fields] [LinearOrder K] {views : Views Fields K V}

/-- A harmless step keeps the cache fresh. -/
theorem step_fresh {db db' : EmuDatabase Fields K V} {op : Op Fields K}
    (h : Keyed db ∧ CacheFresh views db) (hstep : Guarded Harmless (Steps (run views)) db op db') :
    Keyed db' ∧ CacheFresh views db' := by
  obtain ⟨hharmless, rfl⟩ := hstep
  obtain ⟨hkeyed, hfresh⟩ := h
  cases op with
  | saveDoc o body docId following =>
    refine saveDoc_fresh o body docId following hkeyed hfresh ?_
    intro b hb
    subst hb
    exact hharmless
  | saveAttachment docId revision attachment =>
    exact saveAttachment_fresh docId revision attachment hkeyed hfresh hharmless
  | deleteDoc docId revision => exact deleteDoc_fresh docId revision hkeyed hfresh
  | copyDoc o docId destinationId rev =>
    exact copyDoc_fresh o docId destinationId rev hkeyed hfresh hharmless
  | queryView oDocs oKeys name options =>
    exact (queryView_spec oDocs oKeys name options hkeyed hfresh).2

/-- In every run of harmless steps the cache stays fresh, and queries answer as without it. -/
theorem cache_fresh {db db' : EmuDatabase Fields K V} {ops : List (Op Fields K)}
    (hempty : db.viewCache = ∅) (hkeyed : Keyed db)
    (hrun : Run (Guarded Harmless (Steps (run views))) db ops db') :
    CacheFresh views db' ∧ ∀ oDocs oKeys name options,
      (db'.queryView oDocs oKeys views name options).1 =
        db'.queryViewUncached oDocs oKeys views name options := by
  have hfresh : CacheFresh views db := by
    intro id doc name rows _ _ hcache
    rw [getCache, hempty, AList.lookup_empty, Option.bind_none] at hcache
    cases hcache
  obtain ⟨hkeyed', hfresh'⟩ := 
    hrun.preserves (fun _ _ _ h hstep => step_fresh h hstep) ⟨hkeyed, hfresh⟩
  exact ⟨hfresh', fun oDocs oKeys name options =>
    (queryView_spec oDocs oKeys name options hkeyed' hfresh').1⟩

/-! A view of the revisions, and a document that gets an attachment once its row is cached. -/

def revisionViews : Views Unit Nat String where
  view := fun _ => ⟨fun doc => [(0, doc.rev.str)], none⟩
  linkedId := fun _ => none
  truncate := fun _ key => key

def allRows : ViewOptions Nat :=
  ⟨none, none, none, none, false, 0, none, true, false, none, false⟩

def saveThenQuery : List (Op Unit Nat) :=
  [.saveDoc .stored (some ⟨some "doc", none, false, none, none, ()⟩) none none,
   .queryView .stored .stored "revisions" allRows]

def thenAttach : List (Op Unit Nat) :=
  saveThenQuery ++ [.saveAttachment "doc" "1-0" ⟨"photo", "image/png", 3, "abc"⟩]

theorem fresh_after_query :
    CacheFresh revisionViews (saveThenQuery.foldl (run revisionViews) .empty) := by
  have hrun : Run (Guarded Harmless (Steps (run revisionViews))) .empty saveThenQuery
      (saveThenQuery.foldl (run revisionViews) .empty) := by
    refine .cons ⟨?_, rfl⟩ (.cons ⟨trivial, rfl⟩ (.nil _))
    intro doc db' _ _ hmem
    exact absurd hmem (AList.notMem_empty _)
  exact (cache_fresh rfl (fun _ _ h => by cases h) hrun).1

/-- The cached row still has the revision from before the attachment. -/
theorem stale_after_attachment :
    ¬ CacheFresh revisionViews (thenAttach.foldl (run revisionViews) .empty) ∧
    ((thenAttach.foldl (run revisionViews) .empty).queryView .stored .stored revisionViews "revisions"
      allRows).1.toOption.map (fun rows => rows.map ViewRow.value) = some ["1-0"] ∧
    ((thenAttach.foldl (run revisionViews) .empty).queryViewUncached .stored .stored revisionViews
      "revisions" allRows).toOption.map (fun rows => rows.map ViewRow.value) = some ["2-1"] := by
  refine ⟨?_, by decide, by decide⟩
  intro h
  have := h "doc" _ "revisions" [⟨0, "1-0", "doc"⟩] rfl rfl (by decide)
  exact absurd this (by decide)

end EmuDatabase
end Feat.Database
