import Feat.Database.EmuCache

/- What a failed write leaves of the emulated database (`feat.database.emu`:
   `save_doc`, `save_attachment`, `delete_doc`).

   A write that is refused for its id, its revision or because the document is
   missing is refused before anything is written. `save_doc` looks at the
   attachments only after the document is stored and the change recorded, so a
   save that lacks an attachment fails with the new revision in place
   (`saveDoc_clean_iff`). The other two writes find the document and then its table
   of bodies; where a document is left without a table, as deleting leaves it,
   `save_attachment` has added the entry by the time it fails
   (`saveAttachment_clean_iff`, `deleteDoc_clean_iff`). -/
namespace Feat.Database
open Hash

/-- Two documents with the same content. The entries are compared as tables. -/
structure SameDoc {Fields : Type} (doc doc' : Doc Fields) : Prop where
  id : doc'.id = doc.id
  rev : doc'.rev = doc.rev
  deleted : doc'.deleted = doc.deleted
  type : doc'.type = doc.type
  attachments : doc'.attachments.map Dict.view = doc.attachments.map Dict.view
  fields : doc'.fields = doc.fields

namespace EmuDatabase
variable {Fields K V : Type}

/-! ## Writes -/

inductive Write (Fields : Type) where
  | saveDoc (o : HashOrder String) (body : Option (Body Fields)) (docId : Option String)
      (following : Option (Dict String String))
  | saveAttachment (docId revision : String) (attachment : Attachment)
  | deleteDoc (docId revision : String)

/-- The reply to a write and the state it leaves. -/
def attempt [Inhabited Fields] (db : EmuDatabase Fields K V) :
    Write Fields → Reply × EmuDatabase Fields K V
  | .saveDoc o body docId following => db.saveDoc o body docId following
  | .saveAttachment docId revision attachment => db.saveAttachment docId revision attachment
  | .deleteDoc docId revision => db.deleteDoc docId revision

/-- The same documents, attachment bodies, cached rows and changes. -/
structure SameData (db db' : EmuDatabase Fields K V) : Prop where
  documents : ∀ id, Option.Rel SameDoc (db.documents.lookup id) (db'.documents.lookup id)
  attachments : ∀ id, (db'.attachments.lookup id).map Dict.view = (db.attachments.lookup id).map Dict.view
  viewCache : ∀ id, (db'.viewCache.lookup id).map Dict.view = (db.viewCache.lookup id).map Dict.view
  changes : db'.changes = db.changes

/-- If the write failed, the database is as it was. -/
def CleanFailure (db : EmuDatabase Fields K V) (result : Reply × EmuDatabase Fields K V) : Prop :=
  ∀ e, result.1 = .error e → SameData db result.2

/-- The id a body is stored under. -/
def idOf (db : EmuDatabase Fields K V) (body : Body Fields) (docId : Option String) : String :=
  match givenId body docId with
  | some id => id
  | none => (db.generateId body.type).1

/-- The body does not carry the revision of the live document, or one that splits. -/
def refuses (db : EmuDatabase Fields K V) (body : Body Fields) (docId : Option String) : Prop :=
  (∃ id, givenId body docId = some id ∧ db.conflicts id body.rev = true) ∨
    ∃ e, nextIndex body.rev = .error e

/-- An attachment the body lists is neither passed along nor stored. -/
def lacksAttachment (db : EmuDatabase Fields K V) (body : Body Fields) (docId : Option String)
    (following : Option (Dict String String)) : Prop :=
  ∃ name stub, (body.attachments.getD ∅).lookup name = some stub ∧
    if stub.follows then following.bind (fun f => f.lookup name) = none
    else name ∉ (db.attachments.lookup (db.idOf body docId)).getD ∅

/-- The write does not fail halfway. -/
def FailsEarly (db : EmuDatabase Fields K V) : Write Fields → Prop
  | .saveDoc _ none _ _ => True
  | .saveDoc _ (some body) docId following =>
    db.refuses body docId ∨ ¬ db.lacksAttachment body docId following
  | .saveAttachment docId _ attachment => ∀ doc, db.documents.lookup docId = some doc →
    db.attachments.lookup doc.id = none → ∃ stubs, doc.attachments = some stubs ∧
      stubs.lookup attachment.name = some ⟨false, true, attachment.contentType, attachment.length⟩
  | .deleteDoc docId revision => ∀ doc, db.documents.lookup docId = some doc →
    doc.rev.str = revision → doc.deleted = false → (db.attachments.lookup doc.id).isSome

theorem SameDoc.refl (doc : Doc Fields) : SameDoc doc doc := ⟨rfl, rfl, rfl, rfl, rfl, rfl⟩

theorem sameDoc_option (doc : Option (Doc Fields)) : Option.Rel SameDoc doc doc := by
  cases doc with
  | none => exact .none
  | some doc => exact .some (SameDoc.refl doc)

/-- A state with the same tables, whatever the counters. -/
theorem SameData.of_eq {db db' : EmuDatabase Fields K V} (hdocs : db'.documents = db.documents)
    (hatts : db'.attachments = db.attachments) (hcache : db'.viewCache = db.viewCache)
    (hchanges : db'.changes = db.changes) : SameData db db' :=
  ⟨fun id => hdocs ▸ sameDoc_option _, fun _ => by rw [hatts], fun _ => by rw [hcache], hchanges⟩

theorem cleanFailure_of_ok {db : EmuDatabase Fields K V} {result : Reply × EmuDatabase Fields K V}
    {response : Response} (h : result.1 = .ok response) : CleanFailure db result := by
  intro e he
  rw [h] at he
  cases he

theorem cleanFailure_error {db db' : EmuDatabase Fields K V} {e : EmuError} :
    CleanFailure db (.error e, db') ↔ SameData db db' :=
  ⟨fun h => h e rfl, fun h _ _ => h⟩

/-! ## Saving -/

/-- Following the attachments fails when one is missing, whatever comes first. -/
theorem followAttachments_missing {following : Option (Dict String String)} {names : List String}
    {stubs : Dict String Stub} {bodies : Dict String String} (hnodup : names.Nodup) {name : String}
    {stub : Stub} (hname : name ∈ names) (hstub : stubs.lookup name = some stub)
    (hmissing : if stub.follows then following.bind (fun f => f.lookup name) = none
      else name ∉ bodies) :
    ∃ e, (followAttachments following names stubs bodies).1 = some e := by
  induction names generalizing stubs bodies with
  | nil => simp at hname
  | cons head names ih =>
    obtain ⟨hhead, hnodup⟩ := List.nodup_cons.mp hnodup
    rcases List.mem_cons.mp hname with rfl | hname
    · unfold followAttachments
      rw [hstub]
      dsimp only
      split
      · rename_i hfollows
        rw [if_pos hfollows] at hmissing
        cases following with
        | none => exact ⟨_, rfl⟩
        | some f =>
          rw [Option.bind_some] at hmissing
          exact ⟨.valueError, by simp only [hmissing]⟩
      · rename_i hfollows
        rw [if_neg hfollows] at hmissing
        rw [if_neg hmissing]
        exact ⟨_, rfl⟩
    · have hne : name ≠ head := fun he => hhead (he ▸ hname)
      unfold followAttachments
      split
      · exact ih hnodup hname hstub hmissing
      · split
        · split
          · exact ⟨_, rfl⟩
          · split
            · exact ⟨_, rfl⟩
            · refine ih hnodup hname ((AList.lookup_insert_ne hne).trans hstub) ?_
              rwa [AList.mem_insert, or_iff_right hne]
        · split
          · exact ih hnodup hname hstub hmissing
          · exact ⟨_, rfl⟩

/-- Storing fails exactly when an attachment is missing. -/
theorem storeDoc_fails_iff (o : HashOrder String) (db : EmuDatabase Fields K V) (doc : Doc Fields)
    (following : Option (Dict String String)) :
    (∃ e, (storeDoc o db doc following).1 = .error e) ↔ db.attachmentMissing doc following := by
  unfold storeDoc attachmentMissing
  dsimp only
  have hnodup : (o.arrange (doc.attachments.getD ∅).keys).Nodup :=
    o.nodup_arrange.mpr (doc.attachments.getD ∅).nodupKeys
  generalize hfollow : followAttachments following (o.arrange (doc.attachments.getD ∅).keys)
    (doc.attachments.getD ∅) ((db.attachments.lookup doc.id).getD ∅) = followed
  obtain ⟨failure, stubs, bodies⟩ := followed
  constructor
  · rintro ⟨e, he⟩
    cases failure with
    | none => cases he
    | some e' =>
      obtain ⟨name, _, stub, hstub, hmissing⟩ := followAttachments_failure hnodup
        (congrArg Prod.fst hfollow)
      exact ⟨name, stub, hstub, hmissing⟩
  · rintro ⟨name, stub, hstub, hmissing⟩
    have hname : name ∈ o.arrange (doc.attachments.getD ∅).keys :=
      o.mem_arrange.mpr (AList.mem_keys.mp (AList.lookup_isSome.mp (by rw [hstub]; rfl)))
    obtain ⟨e, he⟩ := followAttachments_missing hnodup hname hstub hmissing
    rw [hfollow] at he
    obtain rfl : failure = some e := he
    exact ⟨e, rfl⟩

/-- The changes are recorded before the document is stored. -/
theorem storeDoc_changes (o : HashOrder String) (db : EmuDatabase Fields K V) (doc : Doc Fields)
    (following : Option (Dict String String)) :
    (storeDoc o db doc following).2.changes = db.changes := by
  unfold storeDoc
  dsimp only
  split <;> rfl

theorem generateId_frame (db : EmuDatabase Fields K V) (type : Option String) :
    (db.generateId type).2.documents = db.documents ∧
    (db.generateId type).2.attachments = db.attachments ∧
    (db.generateId type).2.viewCache = db.viewCache ∧
    (db.generateId type).2.changes = db.changes := by
  unfold generateId
  split <;> exact ⟨rfl, rfl, rfl, rfl⟩

/-- What `_set_id_and_revision` says of a body: it is refused and nothing is recorded, or it gets
its id and a change is recorded. -/
theorem setIdAndRevision_spec (db : EmuDatabase Fields K V) (body : Body Fields)
    (docId : Option String) :
    (db.refuses body docId ∧ ∃ e db', db.setIdAndRevision body docId = (.error e, db') ∧
      SameData db db') ∨
    (¬ db.refuses body docId ∧ ∃ doc db', db.setIdAndRevision body docId = (.ok doc, db') ∧
      doc.id = db.idOf body docId ∧ doc.attachments = body.attachments ∧
      db'.attachments = db.attachments ∧ db'.changes = db.changes ++ [doc]) := by
  have hstore : ∀ (db₁ : EmuDatabase Fields K V) id, id = db.idOf body docId → SameData db db₁ →
      db₁.attachments = db.attachments → db₁.changes = db.changes →
      (∀ id', givenId body docId = some id' → db.conflicts id' body.rev = false) →
      (db.refuses body docId ∧ ∃ e db', setIdAndRevision.store body db₁ id = (.error e, db') ∧
        SameData db db') ∨
      (¬ db.refuses body docId ∧ ∃ doc db', setIdAndRevision.store body db₁ id = (.ok doc, db') ∧
        doc.id = db.idOf body docId ∧ doc.attachments = body.attachments ∧
        db'.attachments = db.attachments ∧ db'.changes = db.changes ++ [doc]) := by
    intro db₁ id hid hsame hatts hchanges hfree
    unfold setIdAndRevision.store
    split
    · rename_i e he
      exact Or.inl ⟨Or.inr ⟨e, he⟩, e, db₁, rfl, hsame⟩
    · rename_i index hindex
      refine Or.inr ⟨?_, _, _, rfl, hid, rfl, hatts, by rw [hchanges]⟩
      rintro (⟨id', hid', hconflict⟩ | ⟨e, he⟩)
      · rw [hfree id' hid'] at hconflict
        cases hconflict
      · rw [hindex] at he
        cases he
  unfold setIdAndRevision
  split
  · rename_i id hid
    split
    · rename_i hconflict
      exact Or.inl ⟨Or.inl ⟨id, hid, hconflict⟩, _, db, rfl, .of_eq rfl rfl rfl rfl⟩
    · rename_i hconflict
      refine hstore db id ?_ (.of_eq rfl rfl rfl rfl) rfl rfl ?_
      · simp only [idOf, hid]
      · intro id' hid'
        rw [hid] at hid'
        cases hid'
        exact Bool.eq_false_iff.mpr hconflict
  · rename_i hid
    obtain ⟨h₁, h₂, h₃, h₄⟩ := generateId_frame db body.type
    refine hstore _ _ ?_ (.of_eq h₁ h₂ h₃ h₄) h₂ h₄ ?_
    · simp only [idOf, hid]
    · intro id' hid'
      rw [hid] at hid'
      cases hid'

/-- A failed save leaves the database as it was exactly when it was refused at once. -/
theorem saveDoc_clean_iff (o : HashOrder String) (db : EmuDatabase Fields K V) (body : Body Fields)
    (docId : Option String) (following : Option (Dict String String)) :
    CleanFailure db (db.saveDoc o (some body) docId following) ↔
      db.refuses body docId ∨ ¬ db.lacksAttachment body docId following := by
  unfold saveDoc
  dsimp only
  rcases setIdAndRevision_spec db body docId with
    ⟨hrefuses, e, db', hset, hsame⟩ | ⟨haccepts, doc, db', hset, hid, hentries, hatts, hchanges⟩
  · rw [hset]
    exact iff_of_true (cleanFailure_error.mpr hsame) (Or.inl hrefuses)
  · rw [hset, or_iff_right haccepts]
    dsimp only
    have hmissing : db'.attachmentMissing doc following ↔ db.lacksAttachment body docId following := by
      unfold attachmentMissing lacksAttachment
      rw [hentries, hatts, hid]
    rw [← hmissing, ← storeDoc_fails_iff o]
    constructor
    · rintro hclean ⟨e, he⟩
      -- the change is on record
      have := (hclean e he).changes
      rw [storeDoc_changes, hchanges] at this
      simp at this
    · intro hok e he
      exact absurd ⟨e, he⟩ hok

/-! ## Attachments and deleting -/

/-- An entry that is there already makes no difference. -/
theorem view_insert_eq_iff {entries : Option (Dict String Stub)} {name : String} {stub : Stub} :
    (some ((entries.getD ∅).insert name stub)).map Dict.view = entries.map Dict.view ↔
      ∃ stubs, entries = some stubs ∧ stubs.lookup name = some stub := by
  cases entries with
  | none => simp
  | some stubs =>
    simp only [Option.getD_some, Option.map_some, Option.some.injEq, exists_eq_left']
    constructor
    · intro h
      have := congrFun h name
      simpa [Dict.view] using this.symm
    · intro h
      funext k
      by_cases hk : k = name
      · subst hk
        simp [Dict.view, h]
      · simp [Dict.view, AList.lookup_insert_ne hk]

theorem saveAttachment_clean_iff (db : EmuDatabase Fields K V) (docId revision : String)
    (attachment : Attachment) :
    CleanFailure db (db.saveAttachment docId revision attachment) ↔
      ∀ doc, db.documents.lookup docId = some doc → db.attachments.lookup doc.id = none →
        ∃ stubs, doc.attachments = some stubs ∧ stubs.lookup attachment.name =
          some ⟨false, true, attachment.contentType, attachment.length⟩ := by
  unfold saveAttachment
  split
  · rename_i hnone
    refine iff_of_true (cleanFailure_error.mpr (.of_eq rfl rfl rfl rfl)) ?_
    intro doc hdoc
    rw [hnone] at hdoc
    cases hdoc
  · rename_i doc hdoc
    dsimp only
    split
    · rename_i hatts
      rw [cleanFailure_error]
      constructor
      · intro hsame doc' hdoc' _
        rw [hdoc] at hdoc'
        cases hdoc'
        have hrel := hsame.documents docId
        rw [hdoc] at hrel
        simp only [AList.lookup_insert] at hrel
        cases hrel with
        | some h => exact view_insert_eq_iff.mp h.attachments
      · intro hthere
        refine ⟨?_, fun _ => rfl, fun _ => rfl, rfl⟩
        intro id
        by_cases hid : id = docId
        · subst hid
          dsimp only
          rw [hdoc, AList.lookup_insert]
          exact .some ⟨rfl, rfl, rfl, rfl, view_insert_eq_iff.mpr (hthere doc hdoc hatts), rfl⟩
        · dsimp only
          rw [AList.lookup_insert_ne hid]
          exact sameDoc_option _
    · rename_i bodies hatts
      refine iff_of_true (cleanFailure_of_ok rfl) ?_
      intro doc' hdoc' hnone
      rw [hdoc] at hdoc'
      cases hdoc'
      rw [hatts] at hnone
      cases hnone

theorem deleteDoc_clean_iff [Inhabited Fields] (db : EmuDatabase Fields K V) (hkeyed : Keyed db)
    (docId revision : String) :
    CleanFailure db (db.deleteDoc docId revision) ↔
      ∀ doc, db.documents.lookup docId = some doc → doc.rev.str = revision →
        doc.deleted = false → (db.attachments.lookup doc.id).isSome := by
  have hrefused : ∀ e, CleanFailure db (.error e, db) :=
    fun e => cleanFailure_error.mpr (.of_eq rfl rfl rfl rfl)
  unfold deleteDoc
  split
  · rename_i hnone
    refine iff_of_true (hrefused _) ?_
    intro doc hdoc
    rw [hnone] at hdoc
    cases hdoc
  · rename_i doc hdoc
    have hid : doc.id = docId := hkeyed docId doc hdoc
    split
    · rename_i hrev
      refine iff_of_true (hrefused _) ?_
      intro doc' hdoc' hrev'
      rw [hdoc] at hdoc'
      cases hdoc'
      exact absurd hrev' hrev
    · rename_i hrev
      split
      · rename_i hdeleted
        refine iff_of_true (hrefused _) ?_
        intro doc' hdoc' _ hlive
        rw [hdoc] at hdoc'
        cases hdoc'
        rw [hdeleted] at hlive
        cases hlive
      · rename_i hlive
        simp only [expireCache]
        split
        · rename_i hatts
          rw [cleanFailure_error]
          refine iff_of_false ?_ ?_
          · intro hsame
            have hrel := hsame.documents docId
            rw [hdoc] at hrel
            simp only [hid, AList.lookup_insert] at hrel
            cases hrel with
            | some h => exact hlive h.deleted.symm
          · intro hall
            have := hall doc hdoc (not_not.mp hrev) (Bool.eq_false_iff.mpr hlive)
            rw [hatts] at this
            cases this
        · rename_i bodies hatts
          refine iff_of_true (cleanFailure_of_ok rfl) ?_
          intro doc' hdoc' _ _
          rw [hdoc] at hdoc'
          cases hdoc'
          rw [hatts]
          rfl

/-- A failed write leaves the database as it was exactly when it does not fail halfway. -/
theorem failed_write_clean_iff [Inhabited Fields] (db : EmuDatabase Fields K V) (hkeyed : Keyed db)
    (write : Write Fields) : CleanFailure db (db.attempt write) ↔ db.FailsEarly write := by
  cases write with
  | saveDoc o body docId following =>
    cases body with
    | none => exact iff_of_true (cleanFailure_error.mpr (.of_eq rfl rfl rfl rfl)) trivial
    | some body => exact saveDoc_clean_iff o db body docId following
  | saveAttachment docId revision attachment =>
    exact saveAttachment_clean_iff db docId revision attachment
  | deleteDoc docId revision => exact deleteDoc_clean_iff db hkeyed docId revision

/-! A document with an attachment it neither passes along nor has. -/

def photoLess : Body Unit where
  id := some "doc"
  rev := none
  deleted := false
  type := none
  attachments := some (Dict.ofList [("photo", ⟨true, false, "image/png", 3⟩)])
  fields := ()

/-- Saving it in an empty database is not clean. -/
theorem photoLess_clean_iff :
    CleanFailure (.empty : EmuDatabase Unit Nat String)
      (attempt .empty (.saveDoc .stored (some photoLess) none (some ∅))) ↔
    FailsEarly (.empty : EmuDatabase Unit Nat String) (.saveDoc .stored (some photoLess) none (some ∅)) :=
  failed_write_clean_iff .empty (fun _ _ h => by cases h) _

/-- The save fails, and the document and the change are there. -/
theorem photoLess_stays :
    let result := attempt (.empty : EmuDatabase Unit Nat String)
      (.saveDoc .stored (some photoLess) none (some ∅))
    result.1 = .error .valueError ∧ (result.2.openDoc "doc").isOk = true ∧
      result.2.changes.length = 1 ∧ ¬ CleanFailure .empty result := by
  refine ⟨rfl, rfl, rfl, ?_⟩
  intro hclean
  have := (hclean .valueError rfl).changes
  exact absurd (congrArg List.length this) (by decide)

end EmuDatabase
end Feat.Database
