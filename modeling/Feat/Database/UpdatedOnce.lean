import Feat.Database.Updating

/- No update is lost and none is applied twice.

   Of a call of `update_document` that was never started again by a conflict of a
   linked document (`relinked`), at most one revision of its document is written.
   That revision is what the method made of the document it was called for, which
   has the revision that is replaced, or of the document that was deleted
   meanwhile. Exactly one is written when the call reports that the document is
   saved, none when the method resigned, and no revision holds the effect of the
   call twice (`updated_once`). A call that reports success need not have written
   anything (`resigned_unwritten`).

   A linked document that conflicts is what is left out: its conflict is taken for
   one of the document that was saved before, which is fetched and updated again. -/
namespace Feat.Database.Updating
open Hash Transition EmuDatabase

variable {F K V : Type}

/-! ## What a save writes -/

/-- A body was written: the document the changes tell of, and the one that is stored. -/
structure Written (db db' : EmuDatabase F K V) (body : Body F) (doc stored : Doc F) : Prop where
  changes : db'.changes = db.changes ++ [doc]
  documents : db'.documents = db.documents.insert doc.id stored
  id : stored.id = doc.id
  rev : stored.rev = doc.rev
  minted : ∃ n, doc.rev.hash = uuid n ∧ db.serial ≤ n ∧ n < db'.serial
  content : doc = ⟨doc.id, doc.rev, body.deleted, body.type, body.attachments, body.fields⟩
  checked : ∀ id, body.id = some id → doc.id = id ∧ db.conflicts id body.rev = false

theorem followAttachments_conflict {following : Option (Dict String String)} {names : List String}
    {stubs : Dict String Stub} {bodies : Dict String String} :
    (followAttachments following names stubs bodies).1 ≠ some .conflict := by
  induction names generalizing stubs bodies with
  | nil => exact fun h => by cases h
  | cons name names ih =>
    unfold followAttachments
    split
    · exact ih
    · split
      · split
        · exact fun h => by cases h
        · split
          · exact fun h => by cases h
          · exact ih
      · split
        · exact ih
        · exact fun h => by cases h

theorem givenId_own (body : Body F) : givenId body body.id = body.id := by
  unfold givenId
  cases body.id with
  | none => rfl
  | some id =>
    rw [Option.filter_some]
    split <;> rfl

theorem nextIndex_conflict {rev : Option String} : nextIndex rev ≠ .error .conflict := by
  unfold nextIndex
  split
  · exact fun h => by cases h
  · split
    · exact fun h => by cases h
    · split
      · split <;> exact fun h => by cases h
      · exact fun h => by cases h

theorem storeDoc_cases {o : HashOrder String} {db db' : EmuDatabase F K V} {doc : Doc F}
    {following : Option (Dict String String)} {reply : Reply}
    (h : storeDoc o db doc following = (reply, db')) :
    ∃ stored, db'.documents = db.documents.insert doc.id stored ∧ stored.id = doc.id ∧
      stored.rev = doc.rev ∧ db'.changes = db.changes ∧ db'.serial = db.serial ∧
        (reply = .ok ⟨doc.id, doc.rev⟩ ∨ ∃ e, reply = .error e ∧ e ≠ .conflict) := by
  unfold storeDoc at h
  dsimp only at h
  generalize hfollow : followAttachments following _ _ _ = followed at h
  obtain ⟨failure, stubs, bodies⟩ := followed
  cases failure with
  | some e =>
    cases h
    refine ⟨_, rfl, rfl, rfl, rfl, rfl, .inr ⟨e, rfl, fun he => ?_⟩⟩
    exact followAttachments_conflict ((congrArg Prod.fst hfollow).trans (congrArg some he))
  | none =>
    cases h
    exact ⟨_, rfl, rfl, rfl, rfl, rfl, .inl rfl⟩

/-- The document gets its revision and is stored. -/
theorem store_cases {o : HashOrder String} {db db' : EmuDatabase F K V} {body : Body F}
    {following : Option (Dict String String)} {reply : Reply} (u : EmuDatabase F K V) (id : String)
    (hdocs : u.documents = db.documents) (hchanges : u.changes = db.changes)
    (hserial : db.serial ≤ u.serial)
    (hid : ∀ id', body.id = some id' → id = id' ∧ db.conflicts id' body.rev = false)
    (h : (match setIdAndRevision.store body u id with
      | (.error e, db) => (.error e, db)
      | (.ok doc, db) => storeDoc o db doc following) = (reply, db')) :
    (∃ e, reply = .error e ∧ (e = .conflict → body.id ≠ none) ∧ db'.documents = db.documents ∧
      db'.changes = db.changes ∧ db.serial ≤ db'.serial) ∨
    ∃ doc stored, Written db db' body doc stored ∧
      (reply = .ok ⟨doc.id, doc.rev⟩ ∨ ∃ e, reply = .error e ∧ e ≠ .conflict) := by
  unfold setIdAndRevision.store at h
  cases hindex : nextIndex body.rev with
  | error e =>
    rw [hindex] at h
    cases h
    exact .inl ⟨e, rfl, fun he => absurd (he ▸ hindex) nextIndex_conflict, hdocs, hchanges,
      hserial⟩
  | ok index =>
    rw [hindex] at h
    obtain ⟨stored, hinserted, hsid, hsrev, hrest, hser, hreply⟩ := storeDoc_cases h
    refine .inr ⟨_, stored, ⟨?_, ?_, hsid, hsrev, ⟨u.serial, rfl, hserial, ?_⟩, rfl, hid⟩, hreply⟩
    · rw [hrest, ← hchanges]
    · rw [hinserted, ← hdocs]
    · rw [hser]
      exact Nat.lt_succ_self _

/-- What a save leaves: an error and the documents as they were, or the body under a revision
that is new. -/
theorem saveDoc_cases {o : HashOrder String} {db db' : EmuDatabase F K V} {body : Body F}
    {following : Option (Dict String String)} {reply : Reply}
    (h : db.saveDoc o (some body) body.id following = (reply, db')) :
    (∃ e, reply = .error e ∧ (e = .conflict → body.id ≠ none) ∧ db'.documents = db.documents ∧
      db'.changes = db.changes ∧ db.serial ≤ db'.serial) ∨
    ∃ doc stored, Written db db' body doc stored ∧
      (reply = .ok ⟨doc.id, doc.rev⟩ ∨ ∃ e, reply = .error e ∧ e ≠ .conflict) := by
  unfold saveDoc setIdAndRevision at h
  dsimp only at h
  rw [givenId_own] at h
  obtain hid | ⟨id, hid⟩ := Option.eq_none_or_eq_some body.id
  · rw [hid] at h
    have hgenerated : (db.generateId body.type).2.documents = db.documents ∧
        (db.generateId body.type).2.changes = db.changes ∧
        db.serial ≤ (db.generateId body.type).2.serial := by
      unfold generateId
      split
      · exact ⟨rfl, rfl, Nat.le_refl _⟩
      · exact ⟨rfl, rfl, Nat.le_succ _⟩
    exact store_cases _ _ hgenerated.1 hgenerated.2.1 hgenerated.2.2
      (fun id' hid' => (by cases hid.symm.trans hid')) h
  · rw [hid] at h
    dsimp only at h
    cases hconflicts : db.conflicts id body.rev with
    | true =>
      rw [hconflicts, if_pos rfl] at h
      cases h
      refine .inl ⟨_, rfl, fun _ hnone => ?_, rfl, rfl, Nat.le_refl _⟩
      cases hid.symm.trans hnone
    | false =>
      rw [hconflicts, if_neg Bool.false_ne_true] at h
      refine store_cases db id rfl rfl (Nat.le_refl _) (fun id' hid' => ?_) h
      cases hid.symm.trans hid'
      exact ⟨rfl, hconflicts⟩

/-! ## What is kept -/

/-- The revisions of updated documents a call has written. -/
def mains (commits : List (Commit F)) (i : Nat) : List (Commit F) :=
  commits.filter (fun k => k.call = i && k.base.isSome)

/-- The revision is what the update made of the document it held. That document has the revision
that is replaced, and if it was fetched it is what is replaced, or the document was deleted. -/
structure Replaces (u : Update F) (held : Held F) (k : Commit F) : Prop where
  result : ∃ doc, u.unsaved held.body = some doc ∧ k.doc = ⟨k.doc.id, k.doc.rev, doc.body.deleted,
    doc.body.type, doc.body.attachments, doc.body.fields⟩
  named : ∀ id, held.body.id = some id → k.doc.id = id
  replaced : ∀ old, held.body.id ≠ none → k.replaced = some old → old.deleted = false →
    held.body.rev = some old.rev.str
  read : held.fetched = true →
    ∃ old, k.replaced = some old ∧ (old.deleted = false → held.body = old.toBody)

/-- The revisions of its document a call has written when it gets to a phase. -/
def Phase.Allows (commits : List (Commit F)) : Phase F → Prop
  | .fetch _ | .save _ _ | .done .resigned => commits = []
  | .link _ response _ | .sequence _ response | .log _ response _ | .done (.saved response) =>
    ∃ k, commits = [k] ∧ response = ⟨k.doc.id, k.doc.rev⟩
  | .done (.failed _) => commits.length ≤ 1

/-- A phase is one of an update or of a plain save. -/
def Phase.Of (update : Option (Update F)) : Phase F → Prop
  | .fetch _ | .sequence _ _ | .log _ _ _ => update.isSome = true
  | .save none _ | .link none _ _ => update = none
  | .save (some held) doc => ∃ u, update = some u ∧ u.unsaved held.body = some doc
  | .link (some _) _ _ => update.isSome = true
  | .done _ => True

/-- A revision of the database. -/
def Minted (db : EmuDatabase F K V) (rev : Revision) : Prop :=
  ∃ n, rev.hash = uuid n ∧ n < db.serial

/-- A document that was fetched is the stored one as long as that has its revision. -/
structure Attached (db : EmuDatabase F K V) (body : Body F) : Prop where
  stored : ∃ id, body.id = some id ∧ (db.documents.lookup id).isSome = true
  minted : ∃ rev, body.rev = some rev.str ∧ Minted db rev
  same : ∀ id doc, body.id = some id → db.documents.lookup id = some doc →
    body.rev = some doc.rev.str → body = doc.toBody

/-- What is known of a call. -/
structure Sound (db : EmuDatabase F K V) (commits : List (Commit F)) (i : Nat) (call : Call F) :
    Prop where
  phase : call.phase.Of call.update
  allows : call.update.isSome = true → call.relinked = false → call.phase.Allows (mains commits i)
  attached : ∀ held doc, call.phase = .save (some held) doc → held.fetched = true →
    Attached db held.body

/-- What every step keeps, but for the calls in `X`. -/
structure Good (X : Nat → Prop) (s : Shared F K V) : Prop where
  stored : ∀ id doc, s.db.documents.lookup id = some doc → doc.id = id ∧ Minted s.db doc.rev
  counted : ∀ k ∈ s.commits, ∀ i, k.applied.count i ≤ (mains s.commits i).length
  replaces : ∀ k ∈ s.commits, ∀ held, k.base = some held →
    ∃ call u, s.calls[k.call]? = some call ∧ call.update = some u ∧ Replaces u held k
  sound : ∀ i call, s.calls[i]? = some call → X i ∨ Sound s.db s.commits i call

theorem uuid_injective : Function.Injective uuid := by
  intro n m h
  have hdigits : Nat.toDigits 10 n = Nat.toDigits 10 m := by
    simpa [uuid, Nat.toList_repr] using congrArg String.toList h
  calc
    n = Nat.ofDigitChars 10 (Nat.toDigits 10 n) 0 := Nat.ofDigitChars_ten_toDigits.symm
    _ = Nat.ofDigitChars 10 (Nat.toDigits 10 m) 0 := by rw [hdigits]
    _ = m := Nat.ofDigitChars_ten_toDigits

theorem Written.stored_minted {db db' : EmuDatabase F K V} {body : Body F} {doc stored : Doc F}
    (h : Written db db' body doc stored) : Minted db' stored.rev := by
  obtain ⟨n, hn, -, hlt⟩ := h.minted
  exact ⟨n, h.rev ▸ hn, hlt⟩

theorem Written.serial_le {db db' : EmuDatabase F K V} {body : Body F} {doc stored : Doc F}
    (h : Written db db' body doc stored) : db.serial ≤ db'.serial := by
  obtain ⟨n, -, hle, hlt⟩ := h.minted
  exact Nat.le_of_lt (Nat.lt_of_le_of_lt hle hlt)

theorem Minted.mono {db db' : EmuDatabase F K V} {rev : Revision} (h : Minted db rev)
    (hle : db.serial ≤ db'.serial) : Minted db' rev := by
  obtain ⟨n, hn, hlt⟩ := h
  exact ⟨n, hn, Nat.lt_of_lt_of_le hlt hle⟩

/-- The revision of what was written is none that was there before. -/
theorem Attached.written {db db' : EmuDatabase F K V} {body written : Body F} {doc stored : Doc F}
    (h : Attached db body) (hwritten : Written db db' written doc stored) : Attached db' body := by
  obtain ⟨id, hid, hstored⟩ := h.stored
  obtain ⟨rev, hrev, hminted⟩ := h.minted
  refine ⟨⟨id, hid, ?_⟩, ⟨rev, hrev, hminted.mono hwritten.serial_le⟩,
    fun id' d hid' hd hsame => ?_⟩
  · rw [hwritten.documents]
    by_cases he : id = doc.id
    · rw [he, AList.lookup_insert]
      rfl
    · rwa [AList.lookup_insert_ne he]
  · rw [hwritten.documents] at hd
    by_cases he : id' = doc.id
    · rw [he, AList.lookup_insert] at hd
      cases hd
      obtain ⟨n, hn, hlt⟩ := hminted
      obtain ⟨m, hm, hle, -⟩ := hwritten.minted
      have heq : rev = stored.rev := str_injective (Option.some.inj (hrev.symm.trans hsame))
      rw [heq, hwritten.rev, hm] at hn
      exact absurd (uuid_injective hn ▸ hle) (Nat.not_le_of_lt hlt)
    · rw [AList.lookup_insert_ne he] at hd
      exact h.same id' d hid' hd hsame

theorem Attached.same_documents {db db' : EmuDatabase F K V} {body : Body F} (h : Attached db body)
    (hdocs : db'.documents = db.documents) (hle : db.serial ≤ db'.serial) : Attached db' body := by
  obtain ⟨rev, hrev, hminted⟩ := h.minted
  exact ⟨hdocs ▸ h.stored, ⟨rev, hrev, hminted.mono hle⟩, hdocs ▸ h.same⟩

/-- What is opened is attached. -/
theorem attached_toBody {db : EmuDatabase F K V} {id : String} {doc : Doc F}
    (hstored : ∀ id doc, db.documents.lookup id = some doc → doc.id = id ∧ Minted db doc.rev)
    (hdoc : db.documents.lookup id = some doc) : Attached db doc.toBody := by
  obtain ⟨rfl, hminted⟩ := hstored id doc hdoc
  refine ⟨⟨doc.id, rfl, by rw [hdoc]; rfl⟩, ⟨doc.rev, rfl, hminted⟩, fun id' d hid' hd _ => ?_⟩
  cases hid'
  cases hdoc.symm.trans hd
  rfl

theorem unsaved_named {u : Update F} {body : Body F} {doc : Unsaved F}
    (h : u.unsaved body = some doc) : doc.body.id = body.id ∧ doc.body.rev = body.rev := by
  unfold Update.unsaved at h
  split at h
  · cases h
  · cases h
  · cases h
    exact ⟨rfl, rfl⟩
  · cases h
    exact ⟨rfl, rfl⟩

theorem mains_concat (commits : List (Commit F)) (k : Commit F) (i : Nat) :
    mains (commits ++ [k]) i =
      mains commits i ++ if k.call = i ∧ k.base.isSome = true then [k] else [] := by
  unfold mains
  rw [List.filter_append]
  by_cases hk : k.call = i ∧ k.base.isSome = true
  · rw [if_pos hk, List.filter_cons_of_pos (by simp [hk])]
    rfl
  · rw [if_neg hk, List.filter_cons_of_neg (by simpa using hk)]
    rfl

/-- The effects of an update are in what it led to once for each revision it has written. -/
theorem effects_count {commits : List (Commit F)} {i n : Nat}
    (h : ∀ k ∈ commits, k.applied.count i ≤ n) (rev : Option String) :
    (effects commits rev).count i ≤ n := by
  unfold effects
  cases hfind : commits.find? (fun k => some k.doc.rev.str = rev) with
  | none => exact Nat.zero_le _
  | some k => exact h k (List.mem_of_find?_eq_some hfind)

section Steps
variable {c : Logging F} {X : Nat → Prop} {s t : Shared F K V} {i : Nat} {call : Call F}
  {base : Option (Held F)} {body : Body F} {following : Option (Dict String String)} {reply : Reply}

/-- The revision a call writes. -/
def committed (s : Shared F K V) (i : Nat) (base : Option (Held F)) (body : Body F) (doc : Doc F) :
    Commit F :=
  ⟨i, base, s.db.documents.lookup doc.id, doc,
    effects s.commits body.rev ++ if base.isSome then [i] else []⟩

theorem write_cases (h : s.write c i base body following = (reply, t)) :
    t.calls = s.calls ∧
    ((∃ e, reply = .error e ∧ (e = .conflict → body.id ≠ none) ∧ t.commits = s.commits ∧
        t.db.documents = s.db.documents ∧ s.db.serial ≤ t.db.serial) ∨
      ∃ doc stored, Written s.db t.db body doc stored ∧
        t.commits = s.commits ++ [committed s i base body doc] ∧
          (reply = .ok ⟨doc.id, doc.rev⟩ ∨ ∃ e, reply = .error e ∧ e ≠ .conflict)) := by
  unfold Shared.write at h
  cases hsave : s.db.saveDoc c.order (some body) body.id following with
  | mk answer db =>
    rw [hsave] at h
    cases h
    refine ⟨rfl, ?_⟩
    obtain ⟨e, he, hid, hdocs, hchanges, hserial⟩ | ⟨doc, stored, hwritten, hreply⟩ :=
      saveDoc_cases hsave
    · refine .inl ⟨e, he, hid, ?_, hdocs, hserial⟩
      simp [hchanges]
    · refine .inr ⟨doc, stored, hwritten, ?_, hreply⟩
      dsimp only
      rw [hwritten.changes, List.drop_left]
      rfl

theorem Good.write (h : Good X s) (hcall : s.calls[i]? = some call)
    (hbase : ∀ held, base = some held → ∃ u doc, call.update = some u ∧
      u.unsaved held.body = some doc ∧ doc.body = body ∧
        (held.fetched = true → Attached s.db held.body))
    (hwrite : s.write c i base body following = (reply, t)) : Good (fun j => X j ∨ j = i) t := by
  obtain ⟨hcalls, ⟨e, -, -, hcommits, hdocs, hserial⟩ | ⟨doc, stored, hwritten, hcommits, -⟩⟩ :=
    write_cases hwrite
  · refine ⟨fun id doc hdoc => ?_, hcommits ▸ h.counted, hcommits ▸ hcalls ▸ h.replaces,
      fun j call' hcall' => ?_⟩
    · obtain ⟨hid, hminted⟩ := h.stored id doc (hdocs ▸ hdoc)
      exact ⟨hid, hminted.mono hserial⟩
    · refine (h.sound j call' (hcalls ▸ hcall')).imp .inl fun hsound => ?_
      refine ⟨hsound.phase, hcommits ▸ hsound.allows, fun held doc hsave hfetched => ?_⟩
      exact (hsound.attached held doc hsave hfetched).same_documents hdocs hserial
  · refine ⟨fun id d hd => ?_, fun k hk j => ?_, fun k hk held hheld => ?_,
      fun j call' hcall' => ?_⟩
    · rw [hwritten.documents] at hd
      by_cases he : id = doc.id
      · rw [he, AList.lookup_insert] at hd
        cases hd
        exact ⟨hwritten.id.trans he.symm, hwritten.stored_minted⟩
      · rw [AList.lookup_insert_ne he] at hd
        obtain ⟨hid, hminted⟩ := h.stored id d hd
        exact ⟨hid, hminted.mono hwritten.serial_le⟩
    · rw [hcommits, mains_concat, List.length_append]
      rw [hcommits] at hk
      obtain hk | hk := List.mem_append.mp hk
      · exact Nat.le_add_right_of_le (h.counted k hk j)
      · -- what the new revision was made from holds the effects of earlier revisions
        cases List.mem_singleton.mp hk
        have heffects := effects_count (fun k hk => h.counted k hk j) body.rev
        unfold committed
        dsimp only
        rw [List.count_append]
        refine Nat.add_le_add heffects ?_
        cases hsome : base.isSome with
        | false => exact Nat.zero_le _
        | true =>
          by_cases he : i = j
          · simp [he]
          · simp [he, List.count_cons_of_ne he]
    · rw [hcommits] at hk
      rw [hcalls]
      obtain hk | hk := List.mem_append.mp hk
      · exact h.replaces k hk held hheld
      · cases List.mem_singleton.mp hk
        obtain ⟨u, unsaved, hu, hunsaved, rfl, hattached⟩ := hbase held hheld
        obtain ⟨hid, hrev⟩ := unsaved_named hunsaved
        refine ⟨call, u, hcall, hu, ⟨unsaved, hunsaved, hwritten.content⟩, fun id hid' => ?_,
          fun old hnamed hold hlive => ?_, fun hfetched => ?_⟩
        · exact (hwritten.checked id (hid.trans hid')).1
        · obtain ⟨id, hid'⟩ := Option.ne_none_iff_exists'.mp hnamed
          obtain ⟨hdoc, hchecked⟩ := hwritten.checked id (hid.trans hid')
          have hlookup : s.db.documents.lookup id = some old := hdoc ▸ hold
          rw [← hrev]
          simpa [conflicts, hlookup, hlive] using hchecked
        · obtain ⟨id, hid', hstored⟩ := (hattached hfetched).stored
          obtain ⟨old, hold⟩ := Option.isSome_iff_exists.mp hstored
          obtain ⟨hdoc, hchecked⟩ := hwritten.checked id (hid.trans hid')
          refine ⟨old, (congrArg s.db.documents.lookup hdoc).trans hold, fun hlive => ?_⟩
          refine (hattached hfetched).same id old hid' hold ?_
          rw [← hrev]
          simpa [conflicts, hold, hlive] using hchecked
    · by_cases he : j = i
      · exact .inl (.inr he)
      · refine (h.sound j call' (hcalls ▸ hcall')).imp .inl fun hsound => ?_
        refine ⟨hsound.phase, ?_, fun held doc hsave hfetched => ?_⟩
        · rw [hcommits, mains_concat, if_neg fun hk => he hk.1.symm, List.append_nil]
          exact hsound.allows
        · exact (hsound.attached held doc hsave hfetched).written hwritten

/-! ## Where a call goes on -/

theorem iterate_cases (u : Update F) (held : Held F) :
    (∃ doc, u.unsaved held.body = some doc ∧ u.iterate held = .save (some held) doc) ∨
      u.iterate held = .done .resigned ∨ u.iterate held = .done (.failed none) := by
  unfold Update.iterate
  cases hdoc : u.unsaved held.body with
  | some doc => exact .inl ⟨doc, rfl, rfl⟩
  | none =>
    dsimp only
    split
    · exact .inr (.inl rfl)
    · exact .inr (.inr rfl)

theorem sound_iterate (call : Call F) {db : EmuDatabase F K V} {commits : List (Commit F)} {u : Update F}
    {held : Held F} (hu : call.update = some u)
    (hnone : call.relinked = false → mains commits i = [])
    (hattached : held.fetched = true → Attached db held.body) :
    Sound db commits i { call with phase := u.iterate held } := by
  obtain ⟨doc, hdoc, hphase⟩ | hphase | hphase := iterate_cases u held
  · rw [hphase]
    refine ⟨⟨u, hu, hdoc⟩, fun _ => hnone, fun held' doc' hsave hfetched => ?_⟩
    cases hsave
    exact hattached hfetched
  · rw [hphase]
    exact ⟨trivial, fun _ => hnone, fun _ _ hsave => (by cases hsave)⟩
  · rw [hphase]
    refine ⟨trivial, fun _ hlinked => ?_, fun _ _ hsave => (by cases hsave)⟩
    show (mains commits i).length ≤ 1
    rw [hnone hlinked]
    exact Nat.zero_le _

/-- What a call keeps while it saves documents: it is an update if it holds a document. -/
def Bound (call : Call F) : Option (Held F) → Prop
  | some _ => call.update.isSome = true
  | none => call.update = none

theorem sound_linking {db : EmuDatabase F K V} {commits : List (Commit F)} {response : Response}
    {waiting : List (String × List (Unsaved F))} (hbase : Bound call base)
    (hone : call.update.isSome = true → call.relinked = false →
      ∃ k, mains commits i = [k] ∧ response = ⟨k.doc.id, k.doc.rev⟩) :
    Sound db commits i { call with phase := call.linking base response waiting } := by
  have hsound : ∀ phase : Phase F, phase.Of call.update →
      (phase.Allows (mains commits i) ↔
        ∃ k, mains commits i = [k] ∧ response = ⟨k.doc.id, k.doc.rev⟩) →
      (∀ held doc, phase ≠ .save held doc) → Sound db commits i { call with phase := phase } :=
    fun phase hof hallows hsave => ⟨hof, fun hu hl => hallows.mpr (hone hu hl),
      fun held doc he => absurd he (hsave _ _)⟩
  fun_induction Call.linking call base response waiting with
  | case1 =>
    cases base with
    | none => exact hsound (.done (.saved response)) trivial Iff.rfl fun _ _ he => (by cases he)
    | some held =>
      obtain ⟨u, hu⟩ := Option.isSome_iff_exists.mp hbase
      have hfinished : call.finished (some held) response =
          if u.merging then .sequence held response else .done (.saved response) := by
        unfold Call.finished
        rw [hu]
      rw [hfinished]
      split
      · exact hsound (.sequence held response) hbase Iff.rfl fun _ _ he => (by cases he)
      · exact hsound (.done (.saved response)) trivial Iff.rfl fun _ _ he => (by cases he)
  | case2 id waiting ih => exact ih
  | case3 id doc docs waiting =>
    refine hsound (.link base response _) ?_ Iff.rfl fun _ _ he => (by cases he)
    cases base with
    | none => exact hbase
    | some held => exact hbase

theorem sound_caught {db : EmuDatabase F K V} {commits : List (Commit F)} {e : EmuError}
    (hbase : Bound call base)
    (hnone : call.update.isSome = true → call.relinked = false → e = .conflict →
      mains commits i = [])
    (hone : call.update.isSome = true → call.relinked = false → (mains commits i).length ≤ 1) :
    Sound db commits i { call with phase := Call.caught base e } := by
  unfold Call.caught
  cases base with
  | none => exact ⟨trivial, hone, fun _ _ hsave => (by cases hsave)⟩
  | some held =>
    dsimp only
    split
    · rename_i he
      exact ⟨hbase, fun hu hl => hnone hu hl he, fun _ _ hsave => (by cases hsave)⟩
    · exact ⟨trivial, hone, fun _ _ hsave => (by cases hsave)⟩

theorem Good.goOn (h : Good (fun j => X j ∨ j = i) s) (call : Call F) {before : Call F}
    (hcall : s.calls[i]? = some before) (hupdate : call.update = before.update) {phase : Phase F}
    (hsound : Sound s.db s.commits i { call with phase := phase }) :
    Good X (s.goOn i call phase) := by
  obtain ⟨hlt, -⟩ := List.getElem?_eq_some_iff.mp hcall
  refine ⟨h.stored, h.counted, fun k hk held hheld => ?_, fun j call' hcall' => ?_⟩
  · obtain ⟨call', u, hcall', hu, hreplaces⟩ := h.replaces k hk held hheld
    by_cases he : k.call = i
    · refine ⟨{ call with phase := phase }, u, ?_, ?_, hreplaces⟩
      · rw [he]
        exact List.getElem?_set_self hlt
      · rw [he, hcall] at hcall'
        cases hcall'
        exact hupdate.trans hu
    · refine ⟨call', u, ?_, hu, hreplaces⟩
      exact (List.getElem?_set_ne (Ne.symm he)).trans hcall'
  · by_cases he : j = i
    · subst he
      have hset : (s.calls.set j { call with phase := phase })[j]? =
          some { call with phase := phase } := List.getElem?_set_self hlt
      cases hset.symm.trans hcall'
      exact .inr hsound
    · have hsame := (List.getElem?_set_ne (Ne.symm he)).symm.trans hcall'
      obtain (hX | rfl) | hsound' := h.sound j call' hsame
      · exact .inl hX
      · exact absurd rfl he
      · exact .inr hsound'

/-! ## Steps -/

/-- A call that is not one of an update has no document to hold. -/
theorem bound_save {doc : Unsaved F} (h : (Phase.save base doc).Of call.update) :
    Bound call base := by
  cases base with
  | none => exact h
  | some held =>
    obtain ⟨u, hu, -⟩ := h
    exact Option.isSome_iff_exists.mpr ⟨u, hu⟩

theorem bound_link {response : Response} {waiting : List (String × List (Unsaved F))}
    (h : (Phase.link base response waiting).Of call.update) : Bound call base := by
  cases base with
  | none => exact h
  | some held => exact h

/-- Documents a call saves besides the one it updates are not counted. -/
theorem mains_committed (body : Body F) (doc : Doc F) :
    mains (s.commits ++ [committed s i none body doc]) i = mains s.commits i := by
  have hnot : ¬ ((committed s i none body doc).call = i ∧
      (committed s i none body doc).base.isSome = true) := fun h => Bool.false_ne_true h.2
  rw [mains_concat, if_neg hnot, List.append_nil]

/-- All calls are as they should be, so that one of them may be left out. -/
theorem Good.except (h : Good (fun _ => False) s) (i : Nat) : Good (fun j => False ∨ j = i) s :=
  ⟨h.stored, h.counted, h.replaces, fun j call hj => (h.sound j call hj).imp .inl fun hs => hs⟩

theorem good_fetch (h : Good (fun _ => False) s) {docId : Option String}
    (hcall : s.calls[i]? = some call) (hphase : call.phase = .fetch docId) :
    Good (fun _ => False)
      (s.goOn i call (call.opened (docId.elim (.error .notFound) s.db.openDoc))) := by
  have hsound := (h.sound i call hcall).resolve_left id
  have hof := hsound.phase
  have hnone := hsound.allows
  rw [hphase] at hof hnone
  obtain ⟨u, hu⟩ := Option.isSome_iff_exists.mp hof
  refine (h.except i).goOn call hcall rfl ?_
  cases hdoc : docId.elim (.error .notFound) s.db.openDoc with
  | error e =>
    have hopened : call.opened (.error e) = .done (.failed (some e)) := by
      unfold Call.opened
      rw [hu]
    rw [hopened]
    refine ⟨trivial, fun _ hl => ?_, fun _ _ hsave => (by cases hsave)⟩
    show (mains s.commits i).length ≤ 1
    rw [hnone hof hl]
    exact Nat.zero_le _
  | ok doc =>
    have hopened : call.opened (.ok doc) = u.iterate ⟨doc.toBody, true⟩ := by
      unfold Call.opened
      rw [hu]
    rw [hopened]
    refine sound_iterate call hu (hnone hof) fun _ => ?_
    cases docId with
    | none => cases hdoc
    | some id =>
      replace hdoc : s.db.openDoc id = .ok doc := hdoc
      unfold openDoc at hdoc
      split at hdoc
      · cases hdoc
      · rename_i hlookup
        split at hdoc
        · cases hdoc
        · cases hdoc
          exact attached_toBody h.stored hlookup

theorem good_save (h : Good (fun _ => False) s) {doc : Unsaved F}
    (hcall : s.calls[i]? = some call) (hphase : call.phase = .save base doc)
    (hwrite : s.write c i base doc.body following = (reply, t)) :
    (∀ response waiting, reply = .ok response →
      Good (fun _ => False) (t.goOn i call (call.linking base response waiting))) ∧
    ∀ e, reply = .error e → Good (fun _ => False) (t.goOn i call (Call.caught base e)) := by
  have hsound := (h.sound i call hcall).resolve_left id
  have hof := hsound.phase
  have hnone := hsound.allows
  rw [hphase] at hof hnone
  have hbase := bound_save hof
  have hgood : Good (fun j => False ∨ j = i) t := by
    refine h.write hcall (fun held hheld => ?_) hwrite
    subst hheld
    obtain ⟨u, hu, hdoc⟩ := hof
    exact ⟨u, doc, hu, hdoc, rfl, hsound.attached held doc hphase⟩
  obtain ⟨hcalls, hcases⟩ := write_cases hwrite
  have hcommitted : ∀ d, call.update.isSome = true → call.relinked = false →
      t.commits = s.commits ++ [committed s i base doc.body d] →
      mains t.commits i = [committed s i base doc.body d] := by
    intro d hu hl hcommits
    have hheld : base.isSome = true := by
      cases base with
      | none =>
        rw [show call.update = none from hbase] at hu
        cases hu
      | some held => rfl
    rw [hcommits, mains_concat, if_pos ⟨rfl, hheld⟩, hnone hu hl, List.nil_append]
  refine ⟨fun response waiting hreply => ?_, fun e hreply => ?_⟩
  · refine hgood.goOn call (hcalls ▸ hcall) rfl (sound_linking hbase fun hu hl => ?_)
    obtain ⟨e, he, -⟩ | ⟨d, stored, -, hcommits, hok | ⟨e, he, -⟩⟩ := hcases
    · cases hreply.symm.trans he
    · cases hreply.symm.trans hok
      exact ⟨_, hcommitted d hu hl hcommits, rfl⟩
    · cases hreply.symm.trans he
  · refine hgood.goOn call (hcalls ▸ hcall) rfl
      (sound_caught hbase (fun hu hl he => ?_) fun hu hl => ?_)
    · obtain ⟨-, -, -, hcommits, -⟩ | ⟨d, stored, -, -, hok | ⟨e', he', hne⟩⟩ := hcases
      · rw [hcommits]
        exact hnone hu hl
      · cases hreply.symm.trans hok
      · cases hreply.symm.trans he'
        exact absurd he hne
    · obtain ⟨-, -, -, hcommits, -⟩ | ⟨d, stored, -, hcommits, -⟩ := hcases
      · rw [hcommits, hnone hu hl]
        exact Nat.zero_le _
      · rw [hcommitted d hu hl hcommits]
        exact Nat.le_refl _

/-- Saving another document leaves what the call has written of its own. -/
theorem good_other (h : Good (fun _ => False) s) (hcall : s.calls[i]? = some call)
    (hwrite : s.write c i none body following = (reply, t)) :
    Good (fun j => False ∨ j = i) t ∧ t.calls[i]? = some call ∧
      mains t.commits i = mains s.commits i := by
  obtain ⟨hcalls, hcases⟩ := write_cases hwrite
  refine ⟨h.write hcall (fun held hheld => by cases hheld) hwrite, hcalls ▸ hcall, ?_⟩
  obtain ⟨-, -, -, hcommits, -⟩ | ⟨doc, stored, -, hcommits, -⟩ := hcases
  · rw [hcommits]
  · rw [hcommits, mains_committed]

theorem good_link (h : Good (fun _ => False) s) {response : Response}
    {waiting : List (String × List (Unsaved F))} (hcall : s.calls[i]? = some call)
    (hphase : call.phase = .link base response waiting)
    (hwrite : s.write c i none body following = (reply, t)) :
    (∀ waiting', Good (fun _ => False) (t.goOn i call (call.linking base response waiting'))) ∧
    ∀ e, Good (fun _ => False) (t.unlinked i call base e) := by
  have hsound := (h.sound i call hcall).resolve_left id
  have hof := hsound.phase
  have hone := hsound.allows
  rw [hphase] at hof hone
  have hbase := bound_link hof
  obtain ⟨hgood, hcall', hsame⟩ := good_other h hcall hwrite
  refine ⟨fun waiting' => ?_, fun e => ?_⟩
  · exact hgood.goOn call hcall' rfl (sound_linking hbase fun hu hl => hsame ▸ hone hu hl)
  · refine hgood.goOn { call with relinked := call.relinked || e = .conflict } hcall' rfl
      (sound_caught hbase (fun hu hl he => ?_) fun hu hl => ?_)
    · -- the update starts again, and this is noted
      simp [he] at hl
    · obtain ⟨k, hk, -⟩ := hone hu (Bool.or_eq_false_iff.mp hl).1
      rw [hsame, hk]
      exact Nat.le_refl _

theorem good_log (h : Good (fun _ => False) s) {held : Held F} {response : Response} {seq : Nat}
    (hcall : s.calls[i]? = some call) (hphase : call.phase = .log held response seq)
    (hwrite : s.write c i none body following = (reply, t)) (hid : body.id = none) :
    Good (fun _ => False) (t.goOn i call (.done (.saved response))) ∧
    ∀ e, reply = .error e → Good (fun _ => False) (t.goOn i call (Call.caught (some held) e)) := by
  have hsound := (h.sound i call hcall).resolve_left id
  have hof := hsound.phase
  have hone := hsound.allows
  rw [hphase] at hof hone
  obtain ⟨hgood, hcall', hsame⟩ := good_other h hcall hwrite
  refine ⟨?_, fun e hreply => ?_⟩
  · exact hgood.goOn call hcall' rfl
      ⟨trivial, fun hu hl => hsame ▸ hone hu hl, fun _ _ hsave => (by cases hsave)⟩
  · have hbound : Bound call (some held) := hof
    refine hgood.goOn call hcall' rfl (sound_caught hbound (fun hu hl he => ?_) fun hu hl => ?_)
    · -- a log is given a new id, so that it does not conflict
      obtain ⟨e', he', hconflict, -⟩ | ⟨doc, stored, -, -, hok | ⟨e', he', hne⟩⟩ :=
        (write_cases hwrite).2
      · cases hreply.symm.trans he'
        exact absurd hid (hconflict he)
      · cases hreply.symm.trans hok
      · cases hreply.symm.trans he'
        exact absurd he hne
    · obtain ⟨k, hk, -⟩ := hone hu hl
      rw [hsame, hk]
      exact Nat.le_refl _

theorem run_good (h : Good (fun _ => False) s) (hrun : s.run c i = some t) :
    Good (fun _ => False) t := by
  obtain ⟨call, hcall, hrun⟩ := Option.bind_eq_some_iff.mp hrun
  cases hphase : call.phase with
  | fetch docId =>
    rw [hphase] at hrun
    obtain rfl := Option.some.inj hrun
    exact good_fetch h hcall hphase
  | save base doc =>
    obtain ⟨body, following, create, toSave⟩ := doc
    rw [hphase] at hrun
    dsimp only at hrun
    cases hwrite : s.write c i base body following with
    | mk reply s' =>
      rw [hwrite] at hrun
      have hgood := good_save h hcall hphase hwrite
      cases reply with
      | ok response =>
        obtain rfl := Option.some.inj hrun
        exact hgood.1 response _ rfl
      | error e =>
        obtain rfl := Option.some.inj hrun
        exact hgood.2 e rfl
  | link base response waiting =>
    rw [hphase] at hrun
    rcases waiting with - | ⟨⟨id, - | ⟨⟨body, following, create, toSave⟩, docs⟩⟩, waiting⟩
    · cases hrun
    · cases hrun
    · dsimp only at hrun
      cases hwrite : s.write c i none { body with fields := create id body.fields } following with
      | mk reply s' =>
        rw [hwrite] at hrun
        have hgood := good_link h hcall hphase hwrite
        cases reply with
        | ok linked =>
          obtain rfl := Option.some.inj hrun
          exact hgood.1 _
        | error e =>
          obtain rfl := Option.some.inj hrun
          exact hgood.2 e
  | sequence held response =>
    rw [hphase] at hrun
    obtain rfl := Option.some.inj hrun
    have hsound := (h.sound i call hcall).resolve_left id
    have hof := hsound.phase
    have hone := hsound.allows
    rw [hphase] at hof hone
    exact (h.except i).goOn call hcall rfl ⟨hof, hone, fun _ _ hsave => (by cases hsave)⟩
  | log held response seq =>
    rw [hphase] at hrun
    dsimp only at hrun
    cases hwrite : s.write c i none ⟨none, none, false, some "update_log", none,
        c.updateLog held.body.rev response seq⟩ none with
    | mk reply s' =>
      rw [hwrite] at hrun
      have hgood := good_log h hcall hphase hwrite rfl
      cases reply with
      | ok _ =>
        obtain rfl := Option.some.inj hrun
        exact hgood.1
      | error e =>
        obtain rfl := Option.some.inj hrun
        exact hgood.2 e rfl
  | done result =>
    rw [hphase] at hrun
    cases hrun

/-- A call that starts has written nothing. -/
theorem good_started (h : Good (fun _ => False) s) {new : Call F}
    (hnew : mains s.commits s.calls.length = [] → Sound s.db s.commits s.calls.length new) :
    Good (fun _ => False) { s with calls := s.calls ++ [new] } := by
  have hnone : mains s.commits s.calls.length = [] := by
    refine List.filter_eq_nil_iff.mpr fun k hk hmain => ?_
    simp only [Bool.and_eq_true, decide_eq_true_eq] at hmain
    obtain ⟨held, hheld⟩ := Option.isSome_iff_exists.mp hmain.2
    obtain ⟨call, u, hcall, -⟩ := h.replaces k hk held hheld
    obtain ⟨hlt, -⟩ := List.getElem?_eq_some_iff.mp hcall
    exact absurd hmain.1 (Nat.ne_of_lt hlt)
  refine ⟨h.stored, h.counted, fun k hk held hheld => ?_, fun i call hcall => .inr ?_⟩
  · obtain ⟨call, u, hcall, hrest⟩ := h.replaces k hk held hheld
    obtain ⟨hlt, -⟩ := List.getElem?_eq_some_iff.mp hcall
    exact ⟨call, u, (List.getElem?_append_left hlt).trans hcall, hrest⟩
  · obtain hlt | hge := Nat.lt_or_ge i s.calls.length
    · rw [List.getElem?_append_left hlt] at hcall
      exact (h.sound i call hcall).resolve_left fun hf => hf
    · rw [List.getElem?_append_right hge] at hcall
      rw [List.getElem?_singleton] at hcall
      split at hcall
      · cases hcall
        obtain rfl : i = s.calls.length := by omega
        exact hnew hnone
      · cases hcall

theorem step_good {e : Shared.Event F} (h : Good (fun _ => False) s) (hstep : s.step c e = some t) :
    Good (fun _ => False) t := by
  cases e with
  | update u doc =>
    obtain rfl := Option.some.inj hstep
    exact good_started h fun hnone =>
      sound_iterate ⟨some u, .done .resigned, false⟩ rfl (fun _ => hnone)
        fun hfetched => absurd hfetched Bool.false_ne_true
  | updateById u docId =>
    obtain rfl := Option.some.inj hstep
    exact good_started h fun hnone => ⟨rfl, fun _ _ => hnone, fun _ _ hsave => (by cases hsave)⟩
  | save doc =>
    obtain rfl := Option.some.inj hstep
    exact good_started h fun _ => ⟨rfl, fun hu => absurd hu Bool.false_ne_true,
      fun _ _ hsave => (by cases hsave)⟩
  | run i => exact run_good h hstep

theorem new_good : Good (fun _ => False) (Shared.new : Shared F K V) := by
  refine ⟨fun id doc hdoc => ?_, fun k hk => ?_, fun k hk => ?_, fun i call hcall => ?_⟩
  · cases hdoc
  · cases hk
  · cases hk
  · cases hcall

end Steps

/-! ## Runs -/

/-- A call of an update writes its document once if it reports that it is saved and not at all
if its method resigned, from the revision that is replaced unless the document was deleted, and
no revision holds its effect twice. -/
theorem updated_once (c : Logging F) {es : List (Shared.Event F)} {s : Shared F K V}
    (h : Run (Defined (Shared.step c)) .new es s) {i : Nat} {call : Call F} {u : Update F}
    (hcall : s.calls[i]? = some call) (hupdate : call.update = some u)
    (hlinked : call.relinked = false) :
    (mains s.commits i).length ≤ 1 ∧
    (∀ response, call.phase = .done (.saved response) →
      ∃ k, mains s.commits i = [k] ∧ response = ⟨k.doc.id, k.doc.rev⟩) ∧
    (call.phase = .done .resigned → mains s.commits i = []) ∧
    (∀ k ∈ s.commits, k.call = i → ∀ held, k.base = some held → Replaces u held k) ∧
    ∀ k ∈ s.commits, k.applied.count i ≤ 1 := by
  have hgood : Good (fun _ => False) s :=
    Run.preserves (fun _ _ _ hs hstep => step_good hs hstep) h new_good
  have hallows := ((hgood.sound i call hcall).resolve_left id).allows (by rw [hupdate]; rfl) hlinked
  have hone : (mains s.commits i).length ≤ 1 := by
    cases hphase : call.phase with
    | fetch _ | save _ _ =>
      rw [hphase] at hallows
      rw [show mains s.commits i = [] from hallows]
      exact Nat.zero_le _
    | link _ _ _ | sequence _ _ | log _ _ _ =>
      rw [hphase] at hallows
      obtain ⟨k, hk, -⟩ := hallows
      rw [hk]
      exact Nat.le_refl _
    | done result =>
      rw [hphase] at hallows
      cases result with
      | resigned =>
        rw [show mains s.commits i = [] from hallows]
        exact Nat.zero_le _
      | saved response =>
        obtain ⟨k, hk, -⟩ := hallows
        rw [hk]
        exact Nat.le_refl _
      | failed e => exact hallows
  refine ⟨hone, fun response hphase => ?_, fun hphase => ?_, fun k hk hown held hheld => ?_,
    fun k hk => (hgood.counted k hk i).trans hone⟩
  · rw [hphase] at hallows
    exact hallows
  · rw [hphase] at hallows
    exact hallows
  · obtain ⟨call', u', hcall', hu', hreplaces⟩ := hgood.replaces k hk held hheld
    rw [hown, hcall] at hcall'
    cases hcall'
    cases hupdate.symm.trans hu'
    exact hreplaces

/-- What a call reports to have saved. -/
def Call.reported (call : Call F) : Option Response :=
  match call.phase with
  | .done (.saved response) => some response
  | _ => none

theorem reported_eq_some {call : Call F} {response : Response} (h : call.reported = some response) :
    call.phase = .done (.saved response) := by
  unfold Call.reported at h
  split at h
  · rename_i hphase
    cases h
    exact hphase
  · cases h

/-- An update of a document that holds a number. -/
def increase : Update Nat where
  method body :=
    .save (.mk { body with fields := body.fields + 1 } none (fun _ fields => fields) [])
  merging := false

/-- A document is saved and two updates of it fetch it at the same time. The second one conflicts
and fetches it again. -/
def interleaved : List (Shared.Event Nat) :=
  [.save (.mk ⟨some "a", none, false, none, none, 0⟩ none (fun _ fields => fields) []), .run 0,
    .updateById increase "a", .updateById increase "a", .run 1, .run 2, .run 1, .run 2, .run 2,
    .run 2]

theorem updated_once_interleaved :
    ∃ (s : Shared Nat Nat Nat) (k : Commit Nat),
      interleaved.foldlM (Shared.step ⟨.stored, fun _ _ seq => seq⟩) .new = some s ∧
      s.commits.map (fun k => (k.call, k.doc.fields, k.applied)) =
        [(0, 0, []), (1, 1, [1]), (2, 2, [1, 2])] ∧
      mains s.commits 2 = [k] ∧ k.doc.id = "a" ∧ k.doc.rev = ⟨3, "2"⟩ := by
  obtain ⟨s, hs, hrun⟩ : ∃ s : Shared Nat Nat Nat,
      interleaved.foldlM (Shared.step ⟨.stored, fun _ _ seq => seq⟩) .new = some s ∧
      decide (s.commits.map (fun k => (k.call, k.doc.fields, k.applied)) =
          [(0, 0, []), (1, 1, [1]), (2, 2, [1, 2])] ∧
        ∃ call ∈ (s.calls[2]? : Option (Call Nat)), call.update.isSome = true ∧
          call.relinked = false ∧ call.reported = some ⟨"a", ⟨3, "2"⟩⟩) = true := by
    apply Option.map_eq_some_iff.mp
    decide +kernel
  obtain ⟨hcommits, call, hcall, hupdate, hlinked, hreported⟩ := of_decide_eq_true hrun
  obtain ⟨u, hu⟩ := Option.isSome_iff_exists.mp hupdate
  obtain ⟨k, hk, hresponse⟩ :=
    (updated_once _ (run_defined hs) hcall hu hlinked).2.1 _ (reported_eq_some hreported)
  exact ⟨s, k, hs, hcommits, hk, congrArg Response.id hresponse.symm,
    congrArg Response.rev hresponse.symm⟩

/-- A call whose method resigns reports success and has written nothing. -/
theorem resigned_unwritten :
    ¬ ∀ (c : Logging Nat) (es : List (Shared.Event Nat)) (s : Shared Nat Nat Nat),
      Run (Defined (Shared.step c)) .new es s → ∀ i call u, s.calls[i]? = some call →
        call.update = some u →
        (call.phase = .done .resigned ∨ ∃ response, call.phase = .done (.saved response)) →
        ∃ k held, mains s.commits i = [k] ∧ k.base = some held ∧ Replaces u held k ∧
          ∀ k' ∈ s.commits, k'.applied.count i ≤ 1 := by
  intro h
  have hrun : Run (Defined (Shared.step ⟨.stored, fun _ _ seq => seq⟩))
      (Shared.new : Shared Nat Nat Nat) [.update ⟨fun _ => .resign, false⟩ ⟨some "a", none, false, none, none, 0⟩]
      ⟨.empty, [⟨some ⟨fun _ => .resign, false⟩, .done .resigned, false⟩], []⟩ :=
    .cons rfl (.nil _)
  obtain ⟨k, -, hmains, -⟩ := h _ _ _ hrun 0 _ _ rfl rfl (.inl rfl)
  cases hmains

end Feat.Database.Updating
