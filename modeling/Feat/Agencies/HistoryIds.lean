import Mathlib.Data.List.Nodup
import Feat.Agencies.EntriesCache
import Feat.Lib.Hash
import Feat.Lib.Run

/- The histories of journal entries (`feat.agencies.journaler`: `SqliteWriter`).

   A row of the table `entries` refers to one of the table `histories` by its id. A batch of
   entries is stored in one transaction, and the ids are looked up, or made, on the way and kept
   in the cache of the writer. The database takes back what a transaction did that fails; the
   cache is not taken back, nor is it forgotten when the file is replaced by one that has its
   tables already. What refers to the right row is what is stored with the ids of rows that are
   there (`Known`). -/
namespace Feat.Agencies.HistoryIds

open Hash Transition

/-- An agent and its instance. -/
abbrev Key (A : Type) : Type := A × Int

/-- What is inserted: a journal entry or a log, with the other columns. -/
inductive Data (A D : Type) where
  | journal (key : Key A) (fields : D)
  | log (fields : D)

/-- A row of `histories`. -/
structure History (A : Type) where
  id : Nat
  key : Key A

/-- A row of `entries`; its own agent and instance are no columns. -/
structure Entry (A D : Type) where
  historyId : Nat
  key : Key A
  fields : D

/-- The tables, and the highest id that `histories` ever had. -/
structure Database (A D : Type) where
  histories : List (History A)
  sequence : Nat
  entries : List (Entry A D)
  logs : List D

namespace Database
variable {A D : Type}

def empty : Database A D := ⟨[], 0, [], []⟩

/-- Entries refer to their own histories, of which there is one each. -/
structure Sound (db : Database A D) : Prop where
  refers : ∀ e ∈ db.entries, ⟨e.historyId, e.key⟩ ∈ db.histories
  unique : (db.histories.map History.key).Nodup

theorem sound_empty : (empty : Database A D).Sound :=
  ⟨fun _ h => (nomatch h), List.nodup_nil⟩

end Database

/-- A file that was written before. -/
structure Populated (A D : Type) where
  db : Database A D
  sound : db.Sound

/-! ## The writer -/

/-- `SqliteWriter`. -/
structure Writer (A D : Type) where
  historyIds : Dict (Key A) Nat
  cache : EntriesCache (Data A D)
  db : Database A D

/-- How a transaction fails: at an entry, once its history id is known or before, or when it is
    to be committed. -/
inductive Fault where
  | entry (k : Nat) (known : Bool)
  | commit

/-- What happens: entries are inserted, a batch is flushed, or the file is replaced by an empty one
    or one that was written before. -/
inductive Event (A D : Type) where
  | insert (entries : List (Data A D))
  | flush (fault : Option Fault)
  | rotate (content : Option (Populated A D))

variable {A D : Type} [DecidableEq A]

/-- The ids that are known and the tables. -/
abbrev Ids (A D : Type) [DecidableEq A] : Type := Dict (Key A) Nat × Database A D

/-- `_get_history_id`. -/
def getHistoryId (s : Ids A D) (key : Key A) : Nat × Ids A D :=
  match s.1.lookup key with
  | some id => (id, s)
  | none => match s.2.histories.find? (·.key = key) with
    | some history => (history.id, s.1.insert key history.id, s.2)
    | none =>
      let id := s.2.sequence + 1
      (id, s.1.insert key id,
        { s.2 with histories := s.2.histories ++ [⟨id, key⟩], sequence := id })

/-- One entry in a transaction. -/
def insertData (s : Ids A D) : Data A D → Ids A D
  | .journal key fields =>
    let (id, ids, db) := getHistoryId s key
    (ids, { db with entries := db.entries ++ [⟨id, key, fields⟩] })
  | .log fields => (s.1, { s.2 with logs := s.2.logs ++ [fields] })

/-- The ids that are known when a transaction fails at an entry. -/
def knownAt (s : Ids A D) (entries : List (Data A D)) (k : Nat) (known : Bool) :
    Dict (Key A) Nat :=
  let s := (entries.take k).foldl insertData s
  match known, entries[k]? with
  | true, some (.journal key _) => (getHistoryId s key).2.1
  | _, _ => s.1

namespace Writer

/-- `initiate`, with nothing known yet. -/
def initiate (content : Option (Populated A D)) : Writer A D :=
  ⟨∅, .new, content.elim .empty Populated.db⟩

/-- `_perform_inserts`. -/
def performInserts (w : Writer A D) (fault : Option Fault) : Option (Writer A D) :=
  match w.cache.fetch with
  | none => none
  | some ([], _) => some w
  | some (entry :: entries, cache) =>
    let s := (entry :: entries).foldl insertData (w.historyIds, w.db)
    match fault with
    | none => cache.commit.map fun cache => ⟨s.1, cache, s.2⟩
    | some (.entry k known) => cache.rollback.map fun cache =>
        ⟨knownAt (w.historyIds, w.db) (entry :: entries) k known, cache, w.db⟩
    | some .commit => cache.commit.map fun cache => ⟨s.1, cache, w.db⟩

def step (w : Writer A D) : Event A D → Option (Writer A D)
  | .insert entries => some { w with cache := entries.foldl EntriesCache.append w.cache }
  | .flush fault => w.performInserts fault
  -- `_got_encoding` leaves the ids that are known, `_create_schema` does not
  | .rotate (some content) => some { w with db := content.db }
  | .rotate none => some { w with historyIds := ∅, db := .empty }

end Writer

/-! ## What is known -/

/-- The id that is known for an agent and its instance, if any is, is that of their row. -/
def KnownFor (s : Ids A D) (key : Key A) : Prop :=
  ∀ id, s.1.lookup key = some id → ⟨id, key⟩ ∈ s.2.histories

/-- What a batch needs of the ids that are known. -/
def Known (s : Ids A D) (entries : List (Data A D)) : Prop :=
  ∀ key fields, .journal key fields ∈ entries → KnownFor s key

section
variable {s : Ids A D} {key : Key A}

/-- What getting an id does: it is known then, with a row if it is new or was known rightly; rows are
    only added for what was not known. -/
structure Got (s : Ids A D) (key : Key A) (r : Nat × Ids A D) : Prop where
  id : r.2.1.lookup key = some r.1
  kept : ∀ k i, s.1.lookup k = some i → r.2.1.lookup k = some i
  others : ∀ k, k ≠ key → r.2.1.lookup k = s.1.lookup k
  entries : r.2.2.entries = s.2.entries
  rows : ∀ h ∈ s.2.histories, h ∈ r.2.2.histories
  added : ∀ h ∈ r.2.2.histories, h ∈ s.2.histories ∨ s.1.lookup h.key = none
  row : KnownFor s key → ⟨r.1, key⟩ ∈ r.2.2.histories
  unique : (s.2.histories.map History.key).Nodup → (r.2.2.histories.map History.key).Nodup

theorem getHistoryId_got (s : Ids A D) (key : Key A) : Got s key (getHistoryId s key) := by
  rw [getHistoryId]
  cases hknown : s.1.lookup key with
  | some id =>
    exact ⟨hknown, fun _ _ h => h, fun _ _ => rfl, rfl, fun _ h => h, fun _ h => .inl h,
      fun h => h id hknown, fun h => h⟩
  | none =>
    have hkept : ∀ v k i, s.1.lookup k = some i → (s.1.insert key v).lookup k = some i := by
      intro v k i hk
      have hne : k ≠ key := by
        rintro rfl
        rw [hknown] at hk
        cases hk
      rw [AList.lookup_insert_ne hne, hk]
    cases hfind : s.2.histories.find? (·.key = key) with
    | some history =>
      have hkey : history.key = key := by simpa using List.find?_some hfind
      refine ⟨AList.lookup_insert _, hkept _, fun k hk => AList.lookup_insert_ne hk, rfl,
        fun _ h => h, fun _ h => .inl h, fun _ => ?_, fun h => h⟩
      subst hkey
      exact List.mem_of_find?_eq_some hfind
    | none =>
      refine ⟨AList.lookup_insert _, hkept _, fun k hk => AList.lookup_insert_ne hk, rfl,
        fun _ h => List.mem_append_left _ h, fun h hh => ?_,
        fun _ => List.mem_append_right _ (List.mem_singleton.2 rfl), fun h => ?_⟩
      · rcases List.mem_append.1 hh with hh | hh
        · exact .inl hh
        · cases List.mem_singleton.1 hh
          exact .inr hknown
      · have hnew : key ∉ s.2.histories.map History.key := by
          intro hmem
          obtain ⟨history, hh, hkey⟩ := List.mem_map.1 hmem
          have hnone := List.find?_eq_none.1 hfind history hh
          simp [hkey] at hnone
        rw [List.map_append, List.map_singleton]
        exact List.nodup_append_comm.1 (List.nodup_cons.2 ⟨hnew, h⟩)

end

/-! ## A transaction -/

/-- The id that is known is not that of a row of this agent and instance. -/
def Stale (s : Ids A D) (key : Key A) (id : Nat) : Prop :=
  s.1.lookup key = some id ∧ ⟨id, key⟩ ∉ s.2.histories

theorem not_known_iff {s : Ids A D} {entries : List (Data A D)} : ¬ Known s entries ↔
    ∃ key fields id, .journal key fields ∈ entries ∧ Stale s key id := by
  simp only [Known, KnownFor, Stale, not_forall, exists_prop]
  constructor
  · rintro ⟨key, fields, hmem, id, hid, hrow⟩
    exact ⟨key, fields, id, hmem, hid, hrow⟩
  · rintro ⟨key, fields, id, hmem, hid, hrow⟩
    exact ⟨key, fields, hmem, id, hid, hrow⟩

/-- An entry whose id is known rightly keeps the tables sound, and what is known for the rest. -/
theorem insertData_sound {s : Ids A D} {data : Data A D} {rest : List (Data A D)}
    (hsound : s.2.Sound) (hknown : Known s (data :: rest)) :
    (insertData s data).2.Sound ∧ Known (insertData s data) rest := by
  cases data with
  | log fields =>
    exact ⟨⟨hsound.refers, hsound.unique⟩, fun key fields hmem =>
      hknown key fields (List.mem_cons_of_mem _ hmem)⟩
  | journal key fields =>
    have hgot := getHistoryId_got s key
    have hrow := hgot.row (hknown key fields List.mem_cons_self)
    rw [insertData]
    refine ⟨⟨fun e he => ?_, hgot.unique hsound.unique⟩, fun key' fields' hmem id hid => ?_⟩
    · rcases List.mem_append.1 he with he | he
      · exact hgot.rows _ (hsound.refers e (hgot.entries ▸ he))
      · cases List.mem_singleton.1 he
        exact hrow
    · by_cases hkey : key' = key
      · subst hkey
        cases hgot.id.symm.trans hid
        exact hrow
      · exact hgot.rows _ (hknown key' fields' (List.mem_cons_of_mem _ hmem) id
          ((hgot.others key' hkey).symm.trans hid))

theorem foldl_sound {entries : List (Data A D)} {s : Ids A D} (hsound : s.2.Sound)
    (hknown : Known s entries) : (entries.foldl insertData s).2.Sound := by
  induction entries generalizing s with
  | nil => exact hsound
  | cons data rest ih =>
    obtain ⟨hsound, hknown⟩ := insertData_sound hsound hknown
    exact ih hsound hknown

/-- An id that is stale stays so: it is not looked up again. -/
theorem insertData_stale {s : Ids A D} {key : Key A} {id : Nat} (h : Stale s key id)
    (data : Data A D) : Stale (insertData s data) key id ∧
      (∀ e ∈ s.2.entries, e ∈ (insertData s data).2.entries) ∧
      ∀ fields, data = .journal key fields →
        ⟨id, key, fields⟩ ∈ (insertData s data).2.entries := by
  cases data with
  | log fields => exact ⟨h, fun _ he => he, fun _ h => (nomatch h)⟩
  | journal key' fields' =>
    have hgot := getHistoryId_got s key'
    have hid := hgot.kept key id h.1
    refine ⟨⟨hid, fun hrow => ?_⟩, fun e he => List.mem_append_left _ (hgot.entries ▸ he), ?_⟩
    · rcases hgot.added _ hrow with hrow | hnone
      · exact h.2 hrow
      · rw [h.1] at hnone
        cases hnone
    · rintro fields hdata
      cases hdata
      cases hgot.id.symm.trans hid
      exact List.mem_append_right _ (List.mem_singleton.2 rfl)

/-- What is stored with a stale id refers to no row of its own. -/
theorem foldl_stale {entries : List (Data A D)} {s : Ids A D} {key : Key A} {id : Nat}
    (h : Stale s key id) : Stale (entries.foldl insertData s) key id ∧
      (∀ e ∈ s.2.entries, e ∈ (entries.foldl insertData s).2.entries) ∧
      ∀ fields, .journal key fields ∈ entries →
        ⟨id, key, fields⟩ ∈ (entries.foldl insertData s).2.entries := by
  induction entries generalizing s with
  | nil => exact ⟨h, fun _ he => he, fun _ h => (nomatch h)⟩
  | cons data rest ih =>
    obtain ⟨hstale, hentries, hdata⟩ := insertData_stale h data
    obtain ⟨hlast, hkept, hrest⟩ := ih hstale
    refine ⟨hlast, fun e he => hkept e (hentries e he), fun fields hmem => ?_⟩
    rcases List.mem_cons.1 hmem with heq | hmem
    · exact hkept _ (hdata fields heq.symm)
    · exact hrest fields hmem

/-- A transaction keeps the tables sound if and only if the ids that are known are right. -/
theorem foldl_sound_iff {entries : List (Data A D)} {s : Ids A D} (hsound : s.2.Sound) :
    (entries.foldl insertData s).2.Sound ↔ Known s entries := by
  refine ⟨fun h => ?_, foldl_sound hsound⟩
  by_contra hnot
  obtain ⟨key, fields, id, hmem, hstale⟩ := not_known_iff.1 hnot
  obtain ⟨hlast, _, hentry⟩ : _ ∧ _ ∧ ∀ fields, .journal key fields ∈ entries → _ :=
    foldl_stale hstale
  exact hlast.2 (h.refers _ (hentry fields hmem))

/-! ## Runs -/

namespace Writer
variable {w v : Writer A D} {e : Event A D}

/-- Where a batch is committed, the ids that are known for its entries are right. -/
def Rightly (w : Writer A D) : Event A D → Prop
  | .flush none => Known (w.historyIds, w.db) w.cache.cache
  | _ => True

/-- The tables are sound, and no batch is in flight between two events. -/
structure Inv (w : Writer A D) : Prop where
  sound : w.db.Sound
  idle : w.cache.fetched = none

omit [DecidableEq A] in
theorem initiate_inv (content : Option (Populated A D)) : (initiate content).Inv := by
  cases content with
  | none => exact ⟨Database.sound_empty, rfl⟩
  | some content => exact ⟨content.sound, rfl⟩

/-- A batch, committed or not. -/
theorem performInserts_cases {fault : Option Fault} (hidle : w.cache.fetched = none)
    (h : w.performInserts fault = some v) : v.cache.fetched = none ∧
      (fault = none → v.db = (w.cache.cache.foldl insertData (w.historyIds, w.db)).2) ∧
      (fault ≠ none → v.db = w.db) := by
  obtain ⟨ids, ⟨cache, fetched⟩, db⟩ := w
  cases hidle
  cases cache with
  | nil =>
    cases h
    exact ⟨rfl, fun _ => rfl, fun _ => rfl⟩
  | cons data rest =>
    simp only [performInserts, EntriesCache.fetch, List.isEmpty_cons, List.take_length,
      EntriesCache.commit, EntriesCache.rollback] at h
    cases fault with
    | none => cases h; exact ⟨rfl, fun _ => rfl, fun hne => absurd rfl hne⟩
    | some fault =>
      cases fault with
      | entry k known => cases h; exact ⟨rfl, fun hne => (nomatch hne), fun _ => rfl⟩
      | commit => cases h; exact ⟨rfl, fun hne => (nomatch hne), fun _ => rfl⟩

omit [DecidableEq A] in
theorem foldl_append_fetched (entries : List (Data A D)) (c : EntriesCache (Data A D)) :
    (entries.foldl EntriesCache.append c).fetched = c.fetched := by
  induction entries generalizing c with
  | nil => rfl
  | cons data rest ih => exact ih _

/-- A step keeps the tables sound if and only if it stores with the right ids. -/
theorem step_sound_iff (h : w.Inv) (hstep : w.step e = some v) :
    v.cache.fetched = none ∧ (v.db.Sound ↔ w.Rightly e) := by
  cases e with
  | insert entries =>
    cases hstep
    exact ⟨(foldl_append_fetched entries w.cache).trans h.idle, iff_of_true h.sound trivial⟩
  | rotate content =>
    cases content with
    | none => cases hstep; exact ⟨h.idle, iff_of_true Database.sound_empty trivial⟩
    | some content => cases hstep; exact ⟨h.idle, iff_of_true content.sound trivial⟩
  | flush fault =>
    obtain ⟨hidle, hcommitted, hkept⟩ := performInserts_cases h.idle hstep
    refine ⟨hidle, ?_⟩
    cases fault with
    | none => rw [hcommitted rfl]; exact foldl_sound_iff h.sound
    | some fault => rw [hkept (by simp)]; exact iff_of_true h.sound trivial

end Writer

/-- In a run of a writer, from any file, all entries refer to their own histories throughout if and
    only if each batch is committed with the right ids. -/
theorem sound_throughout_iff (content : Option (Populated A D)) (events : List (Event A D))
    (w : Writer A D) :
    Run (Guarded Writer.Rightly (Defined Writer.step)) (Writer.initiate content) events w ↔
      Run (Ending (fun w => w.db.Sound) (Defined Writer.step)) (Writer.initiate content) events w := by
  refine run_guarded_iff (fun w (h : w.Inv) => h.sound) ?_ ?_ (Writer.initiate_inv content)
  · intro w e v h hguard hstep
    obtain ⟨hidle, hiff⟩ := Writer.step_sound_iff h hstep
    exact ⟨hiff.2 hguard, hidle⟩
  · intro w e v h hguard hstep hsound
    exact hguard ((Writer.step_sound_iff h hstep).2.1 hsound)

/-- A batch fails once the id of its entry is known, and is stored when it is tried again. -/
theorem dangling_after_rollback : ¬ ∀ (events : List (Event String Nat)) (w : Writer String Nat),
    Run (Defined Writer.step) (Writer.initiate none) events w → w.db.Sound := by
  intro h
  have hrun : Run (Defined Writer.step) (Writer.initiate none)
      [.insert [.journal ("agent", 1) 7], .flush (some (.entry 0 true)), .flush none]
      (⟨AList.singleton ("agent", 1) 1, ⟨[], none⟩, ⟨[], 0, [⟨1, ("agent", 1), 7⟩], []⟩⟩ :
        Writer String Nat) :=
    run_defined rfl
  have hrow := (h _ _ hrun).refers ⟨1, ("agent", 1), 7⟩ (List.mem_singleton.2 rfl)
  cases hrow

end Feat.Agencies.HistoryIds
