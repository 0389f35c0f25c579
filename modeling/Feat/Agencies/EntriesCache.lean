import Mathlib.Data.List.Basic

/- The cache that journal entries wait in (`feat.agencies.journaler.EntriesCache`), and
   how a user goes through it.

   `fetch` gives all entries and remembers how many it gave; `commit` removes them,
   `rollback` keeps them. A second `fetch` before one of these, and either of these
   without a `fetch`, raises. A user (`CacheUse`) starts an insertion of what it
   fetched and ends it with one of the two; the uses that raise are kept, and what
   each commit was for and what it removed. Used in matched pairs (`Paired`) no use
   raises, commits remove what was fetched, and the cache is locked only while an
   insertion is in flight (`Paired.matched`). -/
namespace Feat.Agencies

/-- `EntriesCache`. -/
structure EntriesCache (E : Type) where
  cache : List E
  fetched : Option Nat

namespace EntriesCache
variable {E : Type}

def new : EntriesCache E := ⟨[], none⟩

def append (c : EntriesCache E) (entry : E) : EntriesCache E :=
  { c with cache := c.cache ++ [entry] }

/-- `fetch`, unless it raises. -/
def fetch (c : EntriesCache E) : Option (List E × EntriesCache E) :=
  match c.fetched with
  | some _ => none
  | none =>
    if c.cache.isEmpty then some ([], c)
    else some (c.cache.take c.cache.length, { c with fetched := some c.cache.length })

/-- `commit`, unless it raises. -/
def commit (c : EntriesCache E) : Option (EntriesCache E) :=
  c.fetched.map fun n => ⟨c.cache.drop n, none⟩

/-- `rollback`, unless it raises. -/
def rollback (c : EntriesCache E) : Option (EntriesCache E) :=
  c.fetched.map fun _ => ⟨c.cache, none⟩

/-- `is_locked`. -/
def isLocked (c : EntriesCache E) : Bool := c.fetched.isSome

end EntriesCache

/-- The uses of a cache that can raise. -/
inductive CacheCall where
  | fetch
  | commit
  | rollback
  deriving DecidableEq

/-- A cache and how it was used: the entries of the insertion in flight, the calls that raised, and
for each commit what its fetch gave and what it removed. -/
structure CacheUse (E : Type) where
  cache : EntriesCache E
  given : Option (List E)
  raised : List CacheCall
  commits : List (List E × List E)

namespace CacheUse
variable {E : Type}

def new : CacheUse E := ⟨.new, none, [], []⟩

/-- Entries are appended one after the other. -/
def appendAll (u : CacheUse E) (entries : List E) : CacheUse E :=
  { u with cache := entries.foldl EntriesCache.append u.cache }

/-- A fetch, with what it gives unless it raises. -/
def fetch (u : CacheUse E) : CacheUse E × Option (List E) :=
  match u.cache.fetch with
  | some (entries, cache) => ({ u with cache }, some entries)
  | none => ({ u with raised := u.raised ++ [.fetch] }, none)

/-- An insertion of entries that were fetched is in flight. -/
def start (u : CacheUse E) (entries : List E) : CacheUse E := { u with given := some entries }

/-- The insertion is over. -/
def commit (u : CacheUse E) : CacheUse E :=
  match u.cache.commit with
  | some cache =>
    { u with
      cache
      given := none
      commits := u.commits ++
        [(u.given.getD [], u.cache.cache.take (u.cache.cache.length - cache.cache.length))] }
  | none => { u with raised := u.raised ++ [.commit] }

def rollback (u : CacheUse E) : CacheUse E :=
  match u.cache.rollback with
  | some cache => { u with cache, given := none }
  | none => { u with raised := u.raised ++ [.rollback] }

/-- Fetches are resolved before the next, commits and rollbacks follow one, a commit removes what its
fetch gave, and the cache is locked only while an insertion is in flight. -/
structure Matched (u : CacheUse E) : Prop where
  none_raised : u.raised = []
  removed : ∀ p ∈ u.commits, p.2 = p.1
  locked : u.cache.isLocked → u.given.isSome

/-- The entries that are first in the cache are inserted, or nothing is and it is not locked. -/
structure Paired (u : CacheUse E) : Prop where
  none_raised : u.raised = []
  removed : ∀ p ∈ u.commits, p.2 = p.1
  inserting : ∀ entries, u.given = some entries →
    u.cache.fetched = some entries.length ∧ entries <+: u.cache.cache
  idle : u.given = none → u.cache.fetched = none

variable {u : CacheUse E} {entries : List E}

theorem Paired.new : Paired (CacheUse.new : CacheUse E) :=
  ⟨rfl, fun _ h => (nomatch h), fun _ h => (nomatch h), fun _ => rfl⟩

theorem Paired.matched (h : Paired u) : Matched u where
  none_raised := h.none_raised
  removed := h.removed
  locked hlocked := by
    cases hgiven : u.given with
    | some entries => rfl
    | none =>
      rw [EntriesCache.isLocked, h.idle hgiven] at hlocked
      cases hlocked

theorem foldl_append (c : EntriesCache E) (entries : List E) :
    entries.foldl EntriesCache.append c = { c with cache := c.cache ++ entries } := by
  induction entries generalizing c with
  | nil => simp
  | cons entry entries ih => simp [ih, EntriesCache.append]

/-- Entries may come at any time. -/
theorem Paired.appendAll (h : Paired u) (entries : List E) : Paired (u.appendAll entries) := by
  unfold CacheUse.appendAll
  rw [foldl_append]
  refine ⟨h.none_raised, h.removed, ?_, h.idle⟩
  intro given hgiven
  obtain ⟨hfetched, hprefix⟩ := h.inserting given hgiven
  exact ⟨hfetched, hprefix.trans (List.prefix_append _ _)⟩

/-- While nothing is in flight a fetch gives all there is. -/
theorem fetch_idle (h : Paired u) (hidle : u.given = none) :
    (u.cache.cache = [] ∧ u.fetch = (u, some [])) ∨
      (u.cache.cache ≠ [] ∧ u.fetch =
        ({ u with cache := { u.cache with fetched := some u.cache.cache.length } },
          some u.cache.cache)) := by
  unfold CacheUse.fetch EntriesCache.fetch
  rw [h.idle hidle]
  cases hcache : u.cache.cache with
  | nil => exact Or.inl ⟨rfl, rfl⟩
  | cons entry entries =>
    right
    simp [List.take_of_length_le, hcache]

/-- What was fetched is inserted. -/
theorem Paired.started (h : Paired u) (hidle : u.given = none) {u' : CacheUse E}
    (hfetch : u.fetch = (u', some entries)) (hsome : entries ≠ []) : Paired (u'.start entries) := by
  rcases fetch_idle h hidle with ⟨_, heq⟩ | ⟨_, heq⟩
  · rw [heq] at hfetch
    cases hfetch
    exact absurd rfl hsome
  · rw [heq] at hfetch
    cases hfetch
    refine ⟨h.none_raised, h.removed, ?_, fun h => (nomatch h)⟩
    intro entries hentries
    cases hentries
    exact ⟨rfl, List.prefix_rfl⟩

/-- What was fetched is rolled back before it is inserted. -/
theorem Paired.refused (h : Paired u) (hidle : u.given = none) {u' : CacheUse E}
    (hfetch : u.fetch = (u', some entries)) (hsome : entries ≠ []) :
    u'.cache.fetched = some entries.length ∧ Paired u'.rollback ∧ u'.rollback.given = none := by
  rcases fetch_idle h hidle with ⟨_, heq⟩ | ⟨_, heq⟩
  · rw [heq] at hfetch
    cases hfetch
    exact absurd rfl hsome
  · rw [heq] at hfetch
    cases hfetch
    exact ⟨rfl, ⟨h.none_raised, h.removed, fun _ h => (nomatch h), fun _ => rfl⟩, rfl⟩

/-- The insertion succeeds. -/
theorem Paired.commit (h : Paired u) (hgiven : u.given = some entries) :
    Paired u.commit ∧ u.commit.given = none := by
  obtain ⟨hfetched, hprefix⟩ := h.inserting entries hgiven
  obtain ⟨rest, hrest⟩ := hprefix
  have heq : u.commit = { u with
      cache := ⟨rest, none⟩, given := none, commits := u.commits ++ [(entries, entries)] } := by
    unfold CacheUse.commit EntriesCache.commit
    rw [hfetched, hgiven, ← hrest]
    simp
  rw [heq]
  refine ⟨⟨h.none_raised, ?_, fun _ h => (nomatch h), fun _ => rfl⟩, rfl⟩
  intro p hp
  rcases List.mem_append.mp hp with hp | hp
  · exact h.removed p hp
  · rw [List.mem_singleton.mp hp]

/-- The insertion fails. -/
theorem Paired.rollback (h : Paired u) (hgiven : u.given = some entries) :
    Paired u.rollback ∧ u.rollback.given = none := by
  obtain ⟨hfetched, _⟩ := h.inserting entries hgiven
  have heq : u.rollback = { u with cache := ⟨u.cache.cache, none⟩, given := none } := by
    unfold CacheUse.rollback EntriesCache.rollback
    rw [hfetched]
    rfl
  rw [heq]
  exact ⟨⟨h.none_raised, h.removed, fun _ h => (nomatch h), fun _ => rfl⟩, rfl⟩

end CacheUse
end Feat.Agencies
