import Feat.Agencies.JournalMigration

/- A migration moves every entry once (`feat.agencies.journaler`: `Journaler.migrate_entries`).

   A batch is what is deleted later if the rows that were read are those that come first by
   timestamp and row id, and it is stored by then if the flush that calls back had fetched it
   (`Timely`). In a run all of whose steps are so no entry is deleted that was not stored, none
   enters the journaler twice, and at the end all have (`migrates`). A batch that ends between two
   journal entries of one timestamp may be another one than is deleted, and a flush that was in
   flight when it came calls back too early. -/
namespace Feat.Agencies

/-! ## What a journaler has been given -/

namespace Journaler
variable {E : Type} {s t : Journaler E} {e : Event E}

/-- All that ever entered. -/
def entered (s : Journaler E) : List E := s.use.commits.flatMap Prod.snd ++ s.use.cache.cache

/-- What a writer has stored. -/
def stored (s : Journaler E) : List E := s.use.commits.flatMap Prod.fst

def Event.entries : Event E → List E
  | .insert entries => entries
  | _ => []

@[simp] theorem scheduleFlush_use (s : Journaler E) : s.scheduleFlush.use = s.use := by
  unfold scheduleFlush
  split <;> rfl

@[simp] theorem insertEntries_use (s : Journaler E) (entries : List E) :
    (s.insertEntries entries).use = s.use.appendAll entries := by
  unfold insertEntries
  rw [scheduleFlush_use]

theorem appendAll_cache (u : CacheUse E) (entries : List E) :
    (u.appendAll entries).cache.cache = u.cache.cache ++ entries := by
  rw [CacheUse.appendAll, CacheUse.foldl_append]

theorem rollback_kept (u : CacheUse E) :
    u.rollback.commits = u.commits ∧ u.rollback.cache.cache = u.cache.cache := by
  unfold CacheUse.rollback EntriesCache.rollback
  cases u.cache.fetched <;> exact ⟨rfl, rfl⟩

theorem flushError_use (s : Journaler E) : s.flushError.use = s.use.rollback := by
  unfold flushError
  split <;> rfl

theorem flushError_kept (s : Journaler E) : s.flushError.use.commits = s.use.commits ∧
    s.flushError.use.cache.cache = s.use.cache.cache := by
  rw [flushError_use]
  exact rollback_kept s.use

theorem flushComplete_use (s : Journaler E) :
    s.flushComplete.use = if s.use.cache.isLocked then s.use.commit else s.use := by
  have hnext : ∀ use : CacheUse E, (if use.cache.cache.length > 0 then
      ({ s with use, task := .none } : Journaler E).scheduleFlush
      else { s with use, task := .none }).use = use := by
    intro use
    split
    · rw [scheduleFlush_use]
    · rfl
  unfold flushComplete
  cases hlocked : s.use.cache.isLocked with
  | true =>
    simp only [if_true]
    exact hnext s.use.commit
  | false =>
    simp only [Bool.false_eq_true, if_false]
    exact hnext s.use

/-- The commit of an insertion. -/
theorem commit_eq {u : CacheUse E} {es : List E} (h : u.Paired) (hgiven : u.given = some es) :
    u.cache.isLocked = true ∧ u.commit.commits = u.commits ++ [(es, es)] ∧
      u.cache.cache = es ++ u.commit.cache.cache := by
  obtain ⟨hfetched, rest, hrest⟩ := h.inserting es hgiven
  unfold CacheUse.commit EntriesCache.commit EntriesCache.isLocked
  rw [hfetched, hgiven, ← hrest]
  simp

/-- The body of a flush while nothing is in flight. -/
theorem flushBody_kept (h : s.use.Paired) (hidle : s.use.given = none) (refuses : Bool) :
    (s.flushBody refuses).use.commits = s.use.commits ∧
      (s.flushBody refuses).use.cache.cache = s.use.cache.cache := by
  have hlocked : s.use.cache.isLocked = false := by
    rw [EntriesCache.isLocked, h.idle hidle]
    rfl
  unfold flushBody
  rcases CacheUse.fetch_idle h hidle with ⟨_, hfetch⟩ | ⟨hsome, hfetch⟩
  · rw [hfetch]
    dsimp only
    rw [flushComplete_use, hlocked]
    exact ⟨rfl, rfl⟩
  · cases hcache : s.use.cache.cache with
    | nil => exact absurd hcache hsome
    | cons entry entries =>
      rw [hcache] at hfetch
      rw [hfetch]
      dsimp only
      split
      · exact ⟨rfl, hcache⟩
      · rw [(flushError_kept _).1, (flushError_kept _).2]
        exact ⟨rfl, hcache⟩

open Migration in
/-- What a step does to what was given: what entered is kept, and a flush that completes has stored
    what it fetched, or found nothing. -/
theorem step_cases (h : Inv s) (hstep : s.step e = some t) :
    (completes s e = false ∧ t.use.commits = s.use.commits ∧
      t.use.cache.cache = s.use.cache.cache ++ e.entries) ∨
    (completes s e = true ∧ e.entries = [] ∧ ∃ es, s.use.given = some es ∧ e = .inserted true ∧
      t.use.commits = s.use.commits ++ [(es, es)] ∧ s.use.cache.cache = es ++ t.use.cache.cache) ∨
    (completes s e = true ∧ e.entries = [] ∧ s.use.cache.cache = [] ∧ s.use.given = none ∧
      t.use.commits = s.use.commits ∧ t.use.cache.cache = []) := by
  cases e with
  | insert entries =>
    cases hstep
    refine .inl ⟨rfl, ?_, ?_⟩
    · rw [insertEntries_use]
      rfl
    · rw [insertEntries_use, appendAll_cache]
      rfl
  | flush refuses =>
    simp only [step, Option.ite_none_right_eq_some, Option.some.injEq] at hstep
    obtain ⟨htask, rfl⟩ := hstep
    have hidle := h.idle (by rw [htask]; intro h; cases h)
    have hkept := flushBody_kept h.paired hidle refuses
    unfold flush completes
    cases hconnected : s.connected with
    | false => exact .inl ⟨rfl, rfl, (List.append_nil _).symm⟩
    | true =>
      cases hempty : s.use.cache.cache with
      | nil =>
        exact .inr (.inr ⟨rfl, rfl, rfl, hidle, hkept.1, hkept.2.trans hempty⟩)
      | cons entry entries =>
        exact .inl ⟨rfl, hkept.1, by simpa [hempty, Event.entries] using hkept.2⟩
  | wake refuses =>
    simp only [step, Option.ite_none_right_eq_some, Option.some.injEq] at hstep
    obtain ⟨htask, rfl⟩ := hstep
    have hidle := h.idle (by rw [htask]; intro h; cases h)
    have hkept := flushBody_kept h.paired hidle refuses
    unfold completes
    cases hempty : s.use.cache.cache with
    | nil => exact .inr (.inr ⟨rfl, rfl, rfl, hidle, hkept.1, hkept.2.trans hempty⟩)
    | cons entry entries =>
      exact .inl ⟨rfl, hkept.1, by simpa [hempty, Event.entries] using hkept.2⟩
  | inserted ok =>
    simp only [step, Option.ite_none_right_eq_some, Option.some.injEq] at hstep
    obtain ⟨htask, rfl⟩ := hstep
    obtain ⟨es, hgiven⟩ := Option.isSome_iff_exists.mp (h.task.mpr htask)
    cases ok with
    | false =>
      refine .inl ⟨rfl, (flushError_kept s).1, ?_⟩
      exact (flushError_kept s).2.trans (List.append_nil _).symm
    | true =>
      obtain ⟨hlocked, hcommits, hcache⟩ := commit_eq h.paired hgiven
      refine .inr (.inl ⟨rfl, rfl, es, hgiven, rfl, ?_, ?_⟩)
      · rw [if_pos rfl, flushComplete_use, hlocked]
        exact hcommits
      · rw [if_pos rfl, flushComplete_use, hlocked]
        exact hcache
  | configureWith =>
    cases hstep
    refine .inl ⟨rfl, ?_, ?_⟩ <;> unfold configureWith <;> split <;> simp [Event.entries]
  | setDisconnected => cases hstep; exact .inl ⟨rfl, rfl, (List.append_nil _).symm⟩

open Migration in
theorem entered_step (h : Inv s) (hstep : s.step e = some t) :
    t.entered = s.entered ++ e.entries := by
  unfold entered
  rcases step_cases h hstep with ⟨_, hcommits, hcache⟩ | ⟨_, hnil, es, _, _, hcommits, hcache⟩ |
    ⟨_, hnil, hempty, _, hcommits, hcache⟩
  · rw [hcommits, hcache, List.append_assoc]
  · rw [hcommits, hcache, hnil]
    simp
  · rw [hcommits, hcache, hempty, hnil]
    simp

open Migration in
theorem stored_step (h : Inv s) (hstep : s.step e = some t) {item : E} (hitem : item ∈ s.stored) :
    item ∈ t.stored := by
  unfold stored at hitem ⊢
  rcases step_cases h hstep with ⟨_, hcommits, _⟩ | ⟨_, _, es, _, _, hcommits, _⟩ |
    ⟨_, _, _, _, hcommits, _⟩
  · rw [hcommits]
    exact hitem
  · rw [hcommits, List.flatMap_append]
    exact List.mem_append_left _ hitem
  · rw [hcommits]
    exact hitem

end Journaler

namespace Migration

open Transition

variable {D : Type} {content : Content D} {s t : State D} {e : Event D} {kind : Kind}
  {table rows : List (Row D)} {n : Nat}

/-! ## Rows -/

/-- The row of a kind that an entry is, if it is one. -/
def Item.row (kind : Kind) : Item D → Option (Row D)
  | .migrated k row => if k = kind then some row else none
  | .other _ => none

/-- The rows of a kind among what is inserted. -/
def rowsOf (kind : Kind) (items : List (Item D)) : List (Row D) := items.filterMap (Item.row kind)

theorem mem_rowsOf {items : List (Item D)} {r : Row D} :
    r ∈ rowsOf kind items ↔ .migrated kind r ∈ items := by
  rw [rowsOf, List.mem_filterMap]
  constructor
  · rintro ⟨item, hitem, hr⟩
    cases item with
    | other fields => cases hr
    | migrated k row =>
      rw [Item.row] at hr
      split at hr
      · next hkind =>
        cases hr
        exact hkind ▸ hitem
      · cases hr
  · intro h
    exact ⟨.migrated kind r, h, if_pos rfl⟩

theorem rowsOf_append (items items' : List (Item D)) :
    rowsOf kind (items ++ items') = rowsOf kind items ++ rowsOf kind items' :=
  List.filterMap_append

theorem rowsOf_other (fields : List D) : rowsOf kind (fields.map .other) = [] := by
  rw [List.eq_nil_iff_forall_not_mem]
  intro r hr
  obtain ⟨_, _, h⟩ := List.mem_map.mp (mem_rowsOf.mp hr)
  cases h

theorem rowsOf_migrated (k : Kind) (rows : List (Row D)) :
    rowsOf kind (rows.map (.migrated k)) = if k = kind then rows else [] := by
  induction rows with
  | nil => split <;> rfl
  | cons r rows ih =>
    unfold rowsOf at ih ⊢
    by_cases hkind : k = kind
    · have hrow : Item.row kind (.migrated k r) = some r := if_pos hkind
      rw [List.map_cons, List.filterMap_cons_some hrow, ih, if_pos hkind, if_pos hkind]
    · have hrow : Item.row kind (.migrated k r) = none := if_neg hkind
      rw [List.map_cons, List.filterMap_cons_none hrow, ih, if_neg hkind, if_neg hkind]

/-! ## The top of a table -/

theorem top_perm (table : List (Row D)) : (table.insertionSort Row.Before).Perm table :=
  List.perm_insertionSort _ table

theorem mem_of_mem_top {r : Row D} (h : r ∈ top n table) : r ∈ table :=
  (top_perm table).mem_iff.mp (List.mem_of_mem_take h)

theorem length_top : (top n table).length = min n table.length := by
  rw [top, List.length_take, List.length_insertionSort]

/-- Sorted by timestamps and row ids. -/
theorem pairwise_insertionSort (table : List (Row D)) :
    (table.insertionSort Row.Before).Pairwise Row.Before := by
  have : Std.Total (Row.Before (D := D)) := ⟨fun r r' => by unfold Row.Before; omega⟩
  have : IsTrans (Row D) Row.Before := ⟨fun r r' r'' => by unfold Row.Before; omega⟩
  exact List.pairwise_insertionSort _ table

/-- What is deleted is the top of the table. -/
theorem mem_deleteTop (hdistinct : (table.map Row.rowid).Nodup) {r : Row D} :
    r ∈ deleteTop n table ↔ r ∈ table ∧ r ∉ top n table := by
  rw [deleteTop, List.mem_filter, decide_eq_true_eq]
  refine and_congr_right fun hr => not_congr ⟨fun h => ?_, List.mem_map_of_mem⟩
  obtain ⟨r', hr', hid⟩ := List.mem_map.mp h
  rwa [List.inj_on_of_nodup_map hdistinct (mem_of_mem_top hr') hr hid] at hr'

theorem length_deleteTop_lt (hn : n ≠ 0) (htable : table ≠ []) :
    (deleteTop n table).length < table.length := by
  have hne : top n table ≠ [] := by
    rw [← List.length_pos_iff, length_top]
    have := List.length_pos_iff.mpr htable
    omega
  obtain ⟨r, hr⟩ := List.exists_mem_of_ne_nil _ hne
  refine List.length_filter_lt_length_iff_exists.mpr ⟨r, mem_of_mem_top hr, ?_⟩
  simpa using ⟨r, hr, rfl⟩

/-! ## The answers of the database -/

theorem Answers.mem (h : Answers kind table rows) {r : Row D} (hr : r ∈ rows) : r ∈ table := by
  cases kind with
  | journal =>
    obtain ⟨order, hperm, _, rfl⟩ := h
    exact hperm.mem_iff.mp (List.mem_of_mem_take hr)
  | log =>
    cases h
    exact mem_of_mem_top hr

theorem Answers.nodup (h : Answers kind table rows) (hnodup : table.Nodup) : rows.Nodup := by
  cases kind with
  | journal =>
    obtain ⟨order, hperm, _, rfl⟩ := h
    exact (hperm.nodup_iff.mpr hnodup).sublist (List.take_sublist _ _)
  | log =>
    cases h
    exact ((top_perm table).nodup_iff.mpr hnodup).sublist (List.take_sublist _ _)

theorem Answers.length (h : Answers kind table rows) : rows.length = min limit table.length := by
  cases kind with
  | journal =>
    obtain ⟨order, hperm, _, rfl⟩ := h
    rw [List.length_take, hperm.length_eq]
  | log =>
    cases h
    exact length_top

/-- No rows come only when there are none. -/
theorem Answers.eq_nil (h : Answers kind table []) : table = [] := by
  have hlength := h.length
  rw [List.length_nil] at hlength
  exact List.length_eq_zero_iff.mp (by unfold limit at hlength; omega)

/-- The top is an answer. -/
theorem answers_top (kind : Kind) (table : List (Row D)) : Answers kind table (top limit table) := by
  cases kind with
  | log => rfl
  | journal =>
    refine ⟨_, top_perm table, (pairwise_insertionSort table).imp ?_, rfl⟩
    intro r r' h
    unfold Row.Before at h
    omega

theorem top_length_top : top (top n table).length table = top n table := by
  rw [length_top, top, top, List.take_eq_take_iff, List.length_insertionSort]
  omega

/-- What is taken of a sorted list comes before what is left. -/
theorem before_of_mem_take {R : Row D → Row D → Prop} {rows : List (Row D)} {r r' : Row D}
    (hsorted : rows.Pairwise R) (hr : r ∈ rows.take n) (hr' : r' ∈ rows)
    (hleft : r' ∉ rows.take n) : R r r' := by
  rw [← List.take_append_drop n rows] at hsorted hr'
  have hdrop : r' ∈ rows.drop n := (List.mem_append.mp hr').resolve_left hleft
  exact (List.pairwise_append.mp hsorted).2.2 r hr r' hdrop

/-- A batch that does not end between rows of one timestamp is what would be deleted. -/
theorem Answers.mem_top (h : Answers kind table rows) (hnodup : table.Nodup)
    (huntied : ∀ r ∈ rows, ∀ r' ∈ table, r' ∉ rows → r.timestamp ≠ r'.timestamp) (r : Row D) :
    r ∈ rows ↔ r ∈ top rows.length table := by
  have hlength : rows.length = (top rows.length table).length := by
    rw [length_top, h.length]
    omega
  have htop : (top rows.length table).Nodup :=
    ((top_perm table).nodup_iff.mpr hnodup).sublist (List.take_sublist _ _)
  have hsubset : rows ⊆ top rows.length table := by
    intro r hr
    by_contra hnot
    -- another row is in its place
    obtain ⟨r', hr', hout⟩ : ∃ r' ∈ top rows.length table, r' ∉ rows := by
      by_contra hall
      have hsub : top rows.length table ⊆ rows := fun r' hr' => by
        by_contra hout
        exact hall ⟨r', hr', hout⟩
      exact hnot (((List.subperm_of_subset htop hsub).perm_of_length_le hlength.le).mem_iff.mpr hr)
    have hbefore : r'.Before r := before_of_mem_take (pairwise_insertionSort table) hr'
      ((top_perm table).mem_iff.mpr (h.mem hr)) hnot
    have huntied := huntied r hr r' (mem_of_mem_top hr') hout
    cases kind with
    | log =>
      cases h
      rw [top_length_top] at hnot
      exact hnot hr
    | journal =>
      obtain ⟨order, hperm, hsorted, rfl⟩ := h
      have hle : r.timestamp ≤ r'.timestamp := before_of_mem_take hsorted hr
        (hperm.mem_iff.mpr (mem_of_mem_top hr')) hout
      unfold Row.Before at hbefore
      omega
  exact ((List.subperm_of_subset (h.nodup hnodup) hsubset).perm_of_length_le hlength.ge).mem_iff

/-! ## Runs -/

/-- The batch that is inserted or deleted. -/
def Phase.batch (kind : Kind) : Phase D → List (Row D)
  | .inserting k batch | .deleting k batch => if k = kind then batch else []
  | _ => []

/-- Whether the journal entries are done with. -/
def Phase.Later : Phase D → Prop
  | .reading kind | .inserting kind _ | .deleting kind _ => kind = .log
  | .done => True

/-- What was read is what would be deleted, and a flush that calls back has fetched it. -/
def State.Timely (s : State D) : Event D → Prop
  | .read rows => ∀ kind, s.phase = .reading kind →
      ∀ r, r ∈ rows ↔ r ∈ top rows.length (s.tables kind)
  | .journaler (.inserted true) => ∀ kind batch, s.phase = .inserting kind batch →
      ∃ es, s.journaler.use.given = some es ∧ ∀ r ∈ batch, .migrated kind r ∈ es
  | _ => True

/-- What entered are the rows that are gone or on their way, what is gone was stored, and a batch on
    its way is the top of its table. -/
structure Inv (content : Content D) (s : State D) : Prop where
  journaler : s.journaler.Inv
  tables : ∀ kind, (s.tables kind).Sublist (content.rows kind)
  entered : ∀ kind r, .migrated kind r ∈ s.journaler.entered ↔
    r ∈ content.rows kind ∧ (r ∉ s.tables kind ∨ r ∈ s.phase.batch kind)
  once : ∀ kind, (rowsOf kind s.journaler.entered).Nodup
  gone : ∀ kind, ∀ r ∈ content.rows kind, r ∉ s.tables kind →
    .migrated kind r ∈ s.journaler.stored
  top : ∀ kind r, r ∈ s.phase.batch kind ↔
    r ∈ top (s.phase.batch kind).length (s.tables kind)
  waiting : ∀ kind batch, s.phase = .inserting kind batch →
    batch ≠ [] ∧ ∀ r ∈ batch, .migrated kind r ∈ s.journaler.use.cache.cache
  stored : ∀ kind batch, s.phase = .deleting kind batch →
    batch ≠ [] ∧ ∀ r ∈ batch, .migrated kind r ∈ s.journaler.stored
  later : s.phase.Later → s.tables .journal = []
  done : s.phase = .done → s.tables .log = []

theorem inv_start (content : Content D) : Inv content (State.start content) where
  journaler := Journaler.Inv.start
  tables _ := List.Sublist.refl _
  entered _ _ := iff_of_false (fun h => (nomatch h)) fun h =>
    h.2.elim (fun hnot => hnot h.1) fun hmem => (nomatch hmem)
  once _ := List.nodup_nil
  gone _ _ hr hnot := absurd hr hnot
  top _ _ := iff_of_false (fun h => (nomatch h)) fun h => (nomatch h)
  waiting _ _ h := nomatch h
  stored _ _ h := nomatch h
  later h := nomatch h
  done h := nomatch h

/-- The loop is left, or the other begins. -/
theorem Inv.next {phase : Phase D} (h : Inv content s) (hbatch : ∀ kind, s.phase.batch kind = [])
    (hreading : ∃ kind, phase = .reading kind ∨ phase = .done)
    (hlater : phase.Later → s.tables .journal = []) (hdone : phase = .done → s.tables .log = []) :
    Inv content { s with phase } := by
  have hnone : ∀ kind, phase.batch kind = [] := by
    rintro kind
    rcases hreading with ⟨_, rfl | rfl⟩ <;> rfl
  refine ⟨h.journaler, h.tables, fun kind r => ?_, h.once, h.gone, fun kind r => ?_, ?_, ?_, hlater,
    hdone⟩
  · rw [h.entered, hbatch, hnone]
  · rw [hnone]
    exact iff_of_false List.not_mem_nil fun h => (nomatch h)
  · rintro kind batch rfl
    rcases hreading with ⟨_, h | h⟩ <;> cases h
  · rintro kind batch rfl
    rcases hreading with ⟨_, h | h⟩ <;> cases h

/-- Rows come. -/
theorem inv_read (h : Inv content s) {rows : List (Row D)} (hphase : s.phase = .reading kind)
    (hanswer : Answers kind (s.tables kind) rows)
    (htimely : ∀ r, r ∈ rows ↔ r ∈ top rows.length (s.tables kind)) :
    Inv content (s.received kind rows) := by
  have hbatch : ∀ k, s.phase.batch k = [] := fun k => by rw [hphase]; rfl
  unfold State.received
  split
  · next hempty =>
    have hnil : s.tables kind = [] := by
      rw [List.isEmpty_iff.mp hempty] at hanswer
      exact hanswer.eq_nil
    cases kind with
    | journal => exact h.next hbatch ⟨.log, .inl rfl⟩ (fun _ => hnil) fun h => (nomatch h)
    | log =>
      have hjournal := h.later (by rw [hphase]; rfl)
      exact h.next hbatch ⟨.log, .inr rfl⟩ (fun _ => hjournal) fun _ => hnil
  · next hne =>
    have hentered : (s.journaler.insertEntries (rows.map (.migrated kind))).entered =
        s.journaler.entered ++ rows.map (.migrated kind) := by
      rw [Journaler.entered, Journaler.insertEntries_use, Journaler.appendAll_cache,
        ← List.append_assoc]
      rfl
    have hstored : (s.journaler.insertEntries (rows.map (.migrated kind))).stored =
        s.journaler.stored := by
      rw [Journaler.stored, Journaler.insertEntries_use]
      rfl
    have hcontent : ∀ r ∈ rows, r ∈ content.rows kind := fun r hr =>
      (h.tables kind).subset (hanswer.mem hr)
    refine ⟨h.journaler.insertEntries _, h.tables, fun k r => ?_, fun k => ?_, ?_, fun k r => ?_, ?_,
      fun _ _ h => (nomatch h), fun hlater => h.later (by rw [hphase]; exact hlater),
      fun h => (nomatch h)⟩
    · dsimp only
      rw [hentered, List.mem_append, h.entered, hbatch, ← mem_rowsOf, rowsOf_migrated, Phase.batch]
      simp only [List.not_mem_nil, or_false, and_or_left]
      refine or_congr_right ?_
      split
      · next hk =>
        subst hk
        exact ⟨fun hr => ⟨hcontent r hr, hr⟩, And.right⟩
      · simp
    · dsimp only
      rw [hentered, rowsOf_append, rowsOf_migrated]
      split
      · next hk =>
        subst hk
        have hnodup : (s.tables kind).Nodup :=
          ((content.distinct kind).of_map _).sublist (h.tables kind)
        refine List.nodup_append'.mpr ⟨h.once kind, hanswer.nodup hnodup, fun r hr hrows => ?_⟩
        have hold := (h.entered kind r).mp (mem_rowsOf.mp hr)
        rw [hbatch] at hold
        exact hold.2.elim (fun hnot => hnot (hanswer.mem hrows)) fun hmem => (nomatch hmem)
      · rw [List.append_nil]
        exact h.once k
    · intro k r hr hgone
      dsimp only
      rw [hstored]
      exact h.gone k r hr hgone
    · rw [Phase.batch]
      split
      · next hk =>
        subst hk
        exact htimely r
      · exact iff_of_false List.not_mem_nil fun h => (nomatch h)
    · intro k batch heq
      cases heq
      refine ⟨by simpa using hne, fun r hr => ?_⟩
      dsimp only
      rw [Journaler.insertEntries_use, Journaler.appendAll_cache]
      exact List.mem_append_right _ (List.mem_map_of_mem hr)

/-- Something happens to the journaler. -/
theorem inv_journaler (h : Inv content s) {e : Journaler.Event D} (htimely : s.Timely (.journaler e))
    (hstep : s.step (.journaler e) = some t) : Inv content t := by
  obtain ⟨j, hj, rfl⟩ := Option.map_eq_some_iff.mp hstep
  have hothers : ∀ kind, rowsOf kind (otherEvent e).entries = [] := by
    intro kind
    cases e with
    | insert entries => exact rowsOf_other entries
    | _ => rfl
  have hentered := Journaler.entered_step h.journaler hj
  have hstored : ∀ item ∈ s.journaler.stored, item ∈ j.stored :=
    fun _ hitem => Journaler.stored_step h.journaler hj hitem
  have hmem : ∀ kind r, .migrated kind r ∈ j.entered ↔ .migrated kind r ∈ s.journaler.entered := by
    intro kind r
    rw [hentered, ← mem_rowsOf, rowsOf_append, hothers, List.append_nil, mem_rowsOf]
  have honce : ∀ kind, (rowsOf kind j.entered).Nodup := by
    intro kind
    rw [hentered, rowsOf_append, hothers, List.append_nil]
    exact h.once kind
  have hinv := h.journaler.step hj
  have hgone : ∀ kind, ∀ r ∈ content.rows kind, r ∉ s.tables kind → .migrated kind r ∈ j.stored :=
    fun kind r hr hgone => hstored _ (h.gone kind r hr hgone)
  have hdeleting : ∀ kind batch, s.phase = .deleting kind batch →
      batch ≠ [] ∧ ∀ r ∈ batch, .migrated kind r ∈ j.stored :=
    fun kind batch hphase => ⟨(h.stored kind batch hphase).1, fun r hr =>
      hstored _ ((h.stored kind batch hphase).2 r hr)⟩
  -- the phase is the same unless the migration waits for the flush
  have hsame (hwaiting : ∀ kind batch, s.phase = .inserting kind batch →
      batch ≠ [] ∧ ∀ r ∈ batch, .migrated kind r ∈ j.use.cache.cache) :
      Inv content { s with journaler := j } :=
    ⟨hinv, h.tables, fun kind r => (hmem kind r).trans (h.entered kind r), honce, hgone, h.top,
      hwaiting, hdeleting, h.later, h.done⟩
  rcases Journaler.step_cases h.journaler hj with ⟨hnot, _, hcache⟩ |
    ⟨hdone, _, es, hgiven, he, hcommits, _⟩ | ⟨hdone, _, hempty, _, _, _⟩
  · -- nobody is called back
    rw [hnot]
    exact hsame fun kind batch hphase => ⟨(h.waiting kind batch hphase).1, fun r hr =>
      hcache ▸ List.mem_append_left _ ((h.waiting kind batch hphase).2 r hr)⟩
  · -- what was fetched has been stored
    rw [hdone]
    obtain rfl : e = .inserted true := by cases e <;> cases he; rfl
    cases hphase : s.phase with
    | inserting kind batch =>
      obtain ⟨es', hes', hbatch⟩ := htimely kind batch hphase
      cases hgiven.symm.trans hes'
      have hnotified : s.notified = { s with phase := .deleting kind batch } := by
        rw [State.notified, hphase]
      rw [if_pos rfl, hnotified]
      refine ⟨hinv, h.tables, fun k r => ?_, honce, hgone, fun k r => ?_,
        fun _ _ heq => (nomatch heq), fun k b heq => ?_,
        fun hlater => h.later (by rw [hphase]; exact hlater), fun heq => (nomatch heq)⟩
      · have hentry := h.entered k r
        rw [hphase] at hentry
        exact (hmem k r).trans hentry
      · have htop := h.top k r
        rw [hphase] at htop
        exact htop
      · cases heq
        refine ⟨(h.waiting kind batch hphase).1, fun r hr => ?_⟩
        rw [Journaler.stored, hcommits, List.flatMap_append]
        exact List.mem_append_right _ (by simpa using hbatch r hr)
    | _ =>
      have hnotified : s.notified = s := by rw [State.notified, hphase]
      rw [if_pos rfl, hnotified]
      exact hsame fun kind batch heq => by rw [hphase] at heq; cases heq
  · -- the cache is not empty while the migration waits
    rw [hdone]
    have hnot : ∀ kind batch, s.phase ≠ .inserting kind batch := by
      intro kind batch hphase
      obtain ⟨hne, hcache⟩ := h.waiting kind batch hphase
      obtain ⟨r, hr⟩ := List.exists_mem_of_ne_nil _ hne
      have hin := hcache r hr
      rw [hempty] at hin
      cases hin
    have hnotified : s.notified = s := by
      rw [State.notified]
      split
      · next kind batch hphase => exact absurd hphase (hnot kind batch)
      · rfl
    rw [if_pos rfl, hnotified]
    exact hsame fun kind batch hphase => absurd hphase (hnot kind batch)

/-- A batch is deleted. -/
theorem inv_deleted (h : Inv content s) {batch : List (Row D)}
    (hphase : s.phase = .deleting kind batch) : Inv content (s.deleted kind batch.length) := by
  have hbatch : ∀ k, s.phase.batch k = if kind = k then batch else [] := fun k => by
    rw [hphase]; rfl
  have htop : ∀ r, r ∈ batch ↔ r ∈ top batch.length (s.tables kind) := by
    intro r
    have := h.top kind r
    rwa [hbatch, if_pos rfl] at this
  have hdistinct : ((s.tables kind).map Row.rowid).Nodup :=
    (content.distinct kind).sublist ((h.tables kind).map _)
  have hmem : ∀ k r, r ∈ (s.deleted kind batch.length).tables k ↔
      r ∈ s.tables k ∧ r ∉ s.phase.batch k := by
    intro k r
    rw [State.deleted, hbatch]
    dsimp only
    by_cases hk : k = kind
    · subst hk
      rw [if_pos rfl, if_pos rfl, mem_deleteTop hdistinct, htop]
    · rw [if_neg hk, if_neg (Ne.symm hk)]
      simp
  have hsub : ∀ k, ((s.deleted kind batch.length).tables k).Sublist (s.tables k) := by
    intro k
    rw [State.deleted]
    dsimp only
    split
    · next hk =>
      subst hk
      exact List.filter_sublist
    · exact List.Sublist.refl _
  refine ⟨h.journaler, fun k => (hsub k).trans (h.tables k), fun k r => ?_, h.once, ?_, ?_,
    fun _ _ h => (nomatch h), fun _ _ h => (nomatch h), ?_, fun h => (nomatch h)⟩
  · rw [hmem, not_and_or, not_not]
    exact (h.entered k r).trans (and_congr_right fun _ => by simp [State.deleted, Phase.batch])
  · intro k r hr hgone
    rw [hmem, not_and_or, not_not] at hgone
    rcases hgone with hgone | hin
    · exact h.gone k r hr hgone
    · rw [hbatch] at hin
      split at hin
      · next hk =>
        subst hk
        exact (h.stored kind batch hphase).2 r hin
      · cases hin
  · intro k r
    exact iff_of_false List.not_mem_nil fun h => (nomatch h)
  · intro hlater
    have hnil := h.later (by rw [hphase]; exact hlater)
    exact List.eq_nil_of_subset_nil (hnil ▸ (hsub .journal).subset)

theorem inv_step (h : Inv content s) (htimely : s.Timely e) (hstep : Step s e t) :
    Inv content t := by
  obtain ⟨hanswered, hstep⟩ := hstep
  cases e with
  | journaler e => exact inv_journaler h htimely hstep
  | read rows =>
    rw [Defined, State.step] at hstep
    split at hstep
    · next kind hphase =>
      cases hstep
      exact inv_read h hphase (hanswered kind hphase) (htimely kind hphase)
    · cases hstep
  | delete =>
    rw [Defined, State.step] at hstep
    split at hstep
    · next kind batch hphase =>
      cases hstep
      exact inv_deleted h hphase
    · cases hstep

/-! ## What is safe -/

/-- No entry is deleted that was not stored, each enters once, and at the end none is left and all have
    entered. -/
structure Safe (content : Content D) (s : State D) : Prop where
  kept : ∀ kind, ∀ r ∈ content.rows kind,
    r ∈ s.tables kind ∨ .migrated kind r ∈ s.journaler.stored
  once : ∀ kind, (rowsOf kind s.journaler.entered).Nodup ∧
    ∀ r ∈ rowsOf kind s.journaler.entered, r ∈ content.rows kind
  done : s.phase = .done → ∀ kind, s.tables kind = [] ∧
    (rowsOf kind s.journaler.entered).Perm (content.rows kind)

theorem Inv.safe (h : Inv content s) : Safe content s where
  kept kind r hr := by
    by_cases hin : r ∈ s.tables kind
    · exact .inl hin
    · exact .inr (h.gone kind r hr hin)
  once kind := ⟨h.once kind, fun r hr => ((h.entered kind r).mp (mem_rowsOf.mp hr)).1⟩
  done hphase kind := by
    have hnil : s.tables kind = [] := by
      cases kind with
      | journal => exact h.later (by rw [hphase]; trivial)
      | log => exact h.done hphase
    refine ⟨hnil, (List.perm_ext_iff_of_nodup (h.once kind) ((content.distinct kind).of_map _)).mpr
      fun r => ?_⟩
    rw [mem_rowsOf, h.entered, hnil, and_iff_left (.inl List.not_mem_nil)]

/-! ## The end -/

def Phase.weight : Phase D → Nat
  | .reading .journal => 4
  | .inserting .journal _ => 3
  | .deleting .journal _ => 2
  | .reading .log => 3
  | .inserting .log _ => 2
  | .deleting .log _ => 1
  | .done => 0

/-- What is still to be done. -/
def State.remaining (s : State D) : Nat :=
  3 * ((s.tables .journal).length + (s.tables .log).length) + s.phase.weight

/-- What the migration does itself. -/
def Event.isOwn : Event D → Bool
  | .journaler _ => false
  | _ => true

/-- Each thing the migration does leaves less to be done. -/
theorem remaining_step (h : Inv content s) (hstep : Step s e t) :
    t.remaining + (if e.isOwn then 1 else 0) ≤ s.remaining := by
  obtain ⟨hanswered, hstep⟩ := hstep
  cases e with
  | read rows =>
    rw [Defined, State.step] at hstep
    split at hstep
    · next kind hphase =>
      cases hstep
      have htables : ∀ k, (s.received kind rows).tables k = s.tables k := by
        intro k
        unfold State.received
        split <;> rfl
      have hweight : (s.received kind rows).phase.weight + 1 ≤ s.phase.weight := by
        rw [hphase]
        unfold State.received
        split <;> cases kind <;> simp [Phase.weight]
      have hown : (Event.read rows).isOwn = true := rfl
      rw [State.remaining, State.remaining, htables, htables, if_pos hown]
      omega
    · cases hstep
  | journaler e =>
    obtain ⟨j, _, rfl⟩ := Option.map_eq_some_iff.mp hstep
    have hnotified : s.notified.remaining ≤ s.remaining := by
      unfold State.notified
      split
      · next kind batch hphase =>
        rw [State.remaining, State.remaining, hphase]
        cases kind <;> simp [Phase.weight]
      · exact le_rfl
    rw [Event.isOwn, if_neg Bool.false_ne_true, Nat.add_zero]
    split
    · exact hnotified
    · exact le_rfl
  | delete =>
    rw [Defined, State.step] at hstep
    split at hstep
    · next kind batch hphase =>
      cases hstep
      have hne := (h.stored kind batch hphase).1
      have htable : s.tables kind ≠ [] := by
        obtain ⟨r, hr⟩ := List.exists_mem_of_ne_nil _ hne
        have hin := (h.top kind r).mp (by rw [hphase, Phase.batch, if_pos rfl]; exact hr)
        exact List.ne_nil_of_mem (mem_of_mem_top hin)
      have hless := length_deleteTop_lt (n := batch.length) (by simpa using hne) htable
      have hown : (Event.delete : Event D).isOwn = true := rfl
      rw [if_pos hown, State.remaining, State.remaining, hphase]
      cases kind <;> simp [State.deleted, Phase.weight] <;> omega
    · cases hstep

/-- How often the migration does something itself is bounded by what there is to do. -/
theorem remaining_run {es : List (Event D)} (h : Inv content s)
    (hrun : Run (Guarded State.Timely Step) s es t) :
    t.remaining + es.countP Event.isOwn ≤ s.remaining := by
  induction hrun with
  | nil s => simp
  | cons hstep _ ih =>
    have hfirst := remaining_step h hstep.2
    have hrest := ih (inv_step h hstep.1 hstep.2)
    rw [List.countP_cons]
    split at hfirst <;> simp_all <;> omega

/-- A step of the journaler that calls nobody back. -/
theorem quiet_step {e : Journaler.Event D} {j : Journaler (Item D)}
    (hstep : s.journaler.step (otherEvent e) = some j)
    (hnot : completes s.journaler (otherEvent e) = false) (htimely : s.Timely (.journaler e)) :
    Guarded State.Timely Step s (.journaler e) { s with journaler := j } := by
  refine ⟨htimely, trivial, ?_⟩
  rw [Defined, State.step, hstep, hnot]
  rfl

/-- A flush that is in flight may fail. -/
theorem exists_idle (h : s.journaler.Inv) : ∃ es j,
    Run (Guarded State.Timely Step) s es { s with journaler := j } ∧ j.Inv ∧
      j.task ≠ .inserting ∧ j.use.cache.cache = s.journaler.use.cache.cache := by
  by_cases htask : s.journaler.task = .inserting
  · have hstep : s.journaler.step (.inserted false) = some s.journaler.flushError := by
      rw [Journaler.step, if_pos htask]
      rfl
    have hinv := h.step hstep
    obtain ⟨entries, hgiven⟩ := Option.isSome_iff_exists.mp (h.task.mpr htask)
    have hnone : s.journaler.flushError.use.given = none := by
      rw [Journaler.flushError_use]
      exact (h.paired.rollback hgiven).2
    refine ⟨[.journaler (.inserted false)], _, .cons (quiet_step hstep rfl trivial) (.nil _), hinv,
      fun hinserting => ?_, (Journaler.flushError_kept _).2⟩
    have hsome := hinv.task.mpr hinserting
    rw [hnone] at hsome
    cases hsome
  · exact ⟨[], s.journaler, .nil _, h, htask, rfl⟩

/-- A writer may be connected. -/
theorem exists_connected (h : s.journaler.Inv) (htask : s.journaler.task ≠ .inserting) : ∃ es j,
    Run (Guarded State.Timely Step) s es { s with journaler := j } ∧ j.Inv ∧
      j.connected = true ∧ j.writer = true ∧ (j.task = .scheduled ∨ j.task = .waiting) ∧
      j.use = s.journaler.use := by
  have hclosed : s.journaler.step (.setDisconnected : Journaler.Event (Item D)) =
      some s.journaler.setDisconnected := rfl
  have hconnected : s.journaler.setDisconnected.step (.configureWith : Journaler.Event (Item D)) =
      some s.journaler.setDisconnected.configureWith := rfl
  refine ⟨[.journaler .setDisconnected, .journaler .configureWith], _,
    .cons (quiet_step hclosed rfl trivial)
      (.cons (quiet_step (s := { s with journaler := s.journaler.setDisconnected }) hconnected rfl
        trivial) (.nil _)), (h.step hclosed).step hconnected, ?_⟩
  unfold Journaler.configureWith Journaler.setDisconnected Journaler.scheduleFlush
  cases hcase : s.journaler.task with
  | inserting => exact absurd hcase htask
  | none => exact ⟨rfl, rfl, .inl rfl, rfl⟩
  | scheduled => exact ⟨rfl, rfl, .inl rfl, rfl⟩
  | waiting => exact ⟨rfl, rfl, .inr rfl, rfl⟩

/-- A flush fetches all there is. -/
theorem flushBody_started {E : Type} {j : Journaler E} (h : j.use.Paired)
    (hidle : j.use.given = none) (hwriter : j.writer = true) (hne : j.use.cache.cache ≠ []) :
    (j.flushBody false).task = .inserting ∧
      (j.flushBody false).use.given = some j.use.cache.cache := by
  unfold Journaler.flushBody
  rcases CacheUse.fetch_idle h hidle with ⟨hnil, _⟩ | ⟨_, hfetch⟩
  · exact absurd hnil hne
  · cases hcache : j.use.cache.cache with
    | nil => exact absurd hcache hne
    | cons entry entries =>
      rw [hcache] at hfetch
      rw [hfetch]
      dsimp only
      rw [if_pos ⟨hwriter, Bool.false_ne_true⟩]
      exact ⟨rfl, rfl⟩

/-- A flush may fetch all there is. -/
theorem exists_fetched (h : s.journaler.Inv) (hne : s.journaler.use.cache.cache ≠ []) : ∃ es j,
    Run (Guarded State.Timely Step) s es { s with journaler := j } ∧ j.Inv ∧
      j.task = .inserting ∧ j.use.given = some s.journaler.use.cache.cache := by
  obtain ⟨es₁, j₁, hrun₁, hinv₁, htask₁, hcache₁⟩ := exists_idle h
  obtain ⟨es₂, j₂, hrun₂, hinv₂, hconnected, hwriter, htask₂, huse⟩ :=
    exists_connected (s := { s with journaler := j₁ }) hinv₁ htask₁
  have hcache : j₂.use.cache.cache = s.journaler.use.cache.cache := by
    rw [huse]
    exact hcache₁
  have hidle : j₂.use.given = none := hinv₂.idle (by rcases htask₂ with h | h <;> rw [h] <;> simp)
  have hempty : j₂.use.cache.cache.isEmpty = false := by
    rw [hcache]
    simpa using hne
  obtain ⟨htask, hgiven⟩ :=
    flushBody_started hinv₂.paired hidle hwriter (by rw [hcache]; exact hne)
  have hlast : ∃ e, j₂.step (otherEvent e : Journaler.Event (Item D)) =
      some (j₂.flushBody false) ∧ completes j₂ (otherEvent e) = false ∧
        State.Timely { s with journaler := j₂ } (.journaler e) := by
    rcases htask₂ with htask₂ | htask₂
    · refine ⟨.flush false, ?_, by simp [completes, otherEvent, hempty], trivial⟩
      rw [otherEvent, Journaler.step, if_pos htask₂, Journaler.flush, if_pos hconnected]
    · refine ⟨.wake false, ?_, by simp [completes, otherEvent, hempty], trivial⟩
      rw [otherEvent, Journaler.step, if_pos htask₂]
  obtain ⟨e, hstep, hnot, htimely⟩ := hlast
  refine ⟨es₁ ++ (es₂ ++ [.journaler e]), _, hrun₁.append (hrun₂.append
    (.cons (quiet_step (s := { s with journaler := j₂ }) hstep hnot htimely) (.nil _))),
    hinv₂.step hstep, htask, ?_⟩
  rw [hgiven, hcache]

/-- There is always a way on. -/
theorem exists_less (h : Inv content s) (hdone : s.phase ≠ .done) : ∃ es t,
    Run (Guarded State.Timely Step) s es t ∧ t.remaining < s.remaining := by
  cases hphase : s.phase with
  | done => exact absurd hphase hdone
  | reading kind =>
    have hstep : Guarded State.Timely Step s (.read (top limit (s.tables kind)))
        (s.received kind (top limit (s.tables kind))) := by
      refine ⟨fun k hk r => ?_, fun k hk => ?_, ?_⟩
      · cases hphase.symm.trans hk
        rw [top_length_top]
      · cases hphase.symm.trans hk
        exact answers_top kind _
      · rw [Defined, State.step, hphase]
    exact ⟨_, _, .cons hstep (.nil _), remaining_step h hstep.2⟩
  | deleting kind batch =>
    have hstep : Guarded State.Timely Step s .delete (s.deleted kind batch.length) := by
      refine ⟨trivial, trivial, ?_⟩
      rw [Defined, State.step, hphase]
    exact ⟨_, _, .cons hstep (.nil _), remaining_step h hstep.2⟩
  | inserting kind batch =>
    obtain ⟨hne, hcache⟩ := h.waiting kind batch hphase
    obtain ⟨r, hr⟩ := List.exists_mem_of_ne_nil _ hne
    obtain ⟨es, j, hrun, hinv, htask, hgiven⟩ :=
      exists_fetched h.journaler (List.ne_nil_of_mem (hcache r hr))
    have hstep : Guarded State.Timely Step { s with journaler := j } (.journaler (.inserted true))
        { s with journaler := j.flushComplete, phase := .deleting kind batch } := by
      refine ⟨fun k b hk => ?_, trivial, ?_⟩
      · cases hphase.symm.trans hk
        exact ⟨_, hgiven, hcache⟩
      · have hj : j.step (.inserted true) = some j.flushComplete := by
          rw [Journaler.step, if_pos htask, if_pos rfl]
        rw [Defined, State.step]
        simp only [otherEvent, hj, completes, State.notified, hphase, Option.map_some, if_true]
    refine ⟨_, _, hrun.append (.cons hstep (.nil _)), ?_⟩
    rw [State.remaining, State.remaining, hphase]
    cases kind <;> simp [Phase.weight]

theorem inv_run {es : List (Event D)} (h : Inv content s)
    (hrun : Run (Guarded State.Timely Step) s es t) : Inv content t :=
  hrun.preserves (fun _ _ _ h hstep => inv_step h hstep.1 hstep.2) h

/-- It may always come to an end. -/
theorem exists_done {k : Nat} (hk : s.remaining ≤ k) (h : Inv content s) : ∃ es t,
    Run (Guarded State.Timely Step) s es t ∧ t.phase = .done := by
  induction k generalizing s with
  | zero =>
    by_contra hnot
    obtain ⟨es, t, _, hless⟩ := exists_less h fun hphase => hnot ⟨[], s, .nil s, hphase⟩
    omega
  | succ k ih =>
    by_cases hphase : s.phase = .done
    · exact ⟨[], s, .nil s, hphase⟩
    · obtain ⟨es, t, hrun, hless⟩ := exists_less h hphase
      obtain ⟨es', u, hrun', hdone⟩ := ih (by omega) (inv_run h hrun)
      exact ⟨es ++ es', u, hrun.append hrun', hdone⟩

/-- In a run in which what is read is what is deleted, and a flush that calls back has fetched the
    batch, no entry is lost, none enters twice, and the end comes after so many steps of the
    migration and is never out of reach. -/
theorem migrates {es : List (Event D)}
    (hrun : Run (Guarded State.Timely Step) (State.start content) es s) :
    Safe content s ∧
      es.countP Event.isOwn ≤ 3 * ((content.rows .journal).length + (content.rows .log).length) + 4 ∧
      ∃ es' t, Run (Guarded State.Timely Step) s es' t ∧ t.phase = .done ∧ Safe content t := by
  have hinv := inv_run (inv_start content) hrun
  obtain ⟨es', t, hrun', hdone⟩ := exists_done le_rfl hinv
  refine ⟨hinv.safe, ?_, es', t, hrun', hdone, (inv_run hinv hrun').safe⟩
  have hbound := remaining_run (inv_start content) hrun
  exact le_trans (Nat.le_add_left _ _) hbound

/-- A journal entry and a log are migrated, with an entry of another origin in between. -/
theorem migrates_one :
    let row : Row Nat := ⟨1, 0, 7⟩
    let content : Content Nat := ⟨fun _ => [row], fun _ => List.nodup_singleton 1⟩
    ∃ s, Run (Guarded State.Timely Step) (State.start content)
        [.journaler .configureWith, .read [row], .journaler (.insert [8]), .journaler (.flush false),
          .journaler (.inserted true), .delete] s ∧ s.tables .journal = [] ∧ Safe content s := by
  intro row content
  have hanswer : ∀ kind, Answers kind [row] [row] := fun kind => by
    cases kind
    · exact ⟨[row], .refl _, List.pairwise_singleton _ _, rfl⟩
    · rfl
  have hrun : Run (Guarded State.Timely Step) (State.start content)
      [.journaler .configureWith, .read [row], .journaler (.insert [8]), .journaler (.flush false),
        .journaler (.inserted true), .delete] _ :=
    .cons ⟨trivial, trivial, rfl⟩ <| .cons ⟨fun _ _ _ => Iff.rfl, fun kind _ => hanswer kind, rfl⟩ <|
    .cons ⟨trivial, trivial, rfl⟩ <| .cons ⟨trivial, trivial, rfl⟩ <|
    .cons ⟨fun kind batch h => by cases h; exact ⟨_, rfl, by decide⟩, trivial, rfl⟩ <|
    .cons ⟨trivial, trivial, rfl⟩ <| .nil _
  exact ⟨_, hrun, rfl, (migrates hrun).1⟩

/-- A journal of one entry, and no logs. -/
def onlyJournal (row : Row Nat) : Kind → List (Row Nat)
  | .journal => [row]
  | .log => []

/-- A flush was in flight when the entry was inserted. It calls back, and the entry is deleted before
it was stored. -/
theorem deleted_before_stored : ¬ ∀ (content : Content Nat) (es : List (Event Nat)) (s : State Nat),
    Run Step (State.start content) es s → Safe content s := by
  intro h
  let row : Row Nat := ⟨1, 0, 7⟩
  let content : Content Nat :=
    ⟨onlyJournal row, fun kind => by cases kind <;> decide⟩
  have hrun : Run Step (State.start content)
      [.journaler .configureWith, .journaler (.insert [8]), .journaler (.flush false), .read [row],
        .journaler (.inserted true), .delete] _ :=
    .cons ⟨trivial, rfl⟩ <| .cons ⟨trivial, rfl⟩ <| .cons ⟨trivial, rfl⟩ <|
    .cons ⟨fun kind hkind => by
      cases hkind; exact ⟨[row], .refl _, List.pairwise_singleton _ _, rfl⟩, rfl⟩ <|
    .cons ⟨trivial, rfl⟩ <| .cons ⟨trivial, rfl⟩ <| .nil _
  rcases (h _ _ _ hrun).kept .journal row (List.mem_singleton.mpr rfl) with hkept | hstored
  · exact absurd hkept (by decide)
  · exact absurd hstored (by decide)

end Migration

end Feat.Agencies
