import Mathlib.Data.List.Sort
import Mathlib.Data.Prod.Lex
import Mathlib.Data.String.Basic
import Mathlib.Algebra.GroupWithZero.Nat
import Feat.Lib.Fallible
import Feat.Lib.Hash
import Feat.Database.Responses

/- The response cache of the database driver (`feat.database.driver`:
   `Database.couchdb_call`, `CacheEntry`, `Cache`).

   An entry of the cache is an object that the cache and the request under way for
   it both hold, so `heap` keeps the entries by number and `cache` the numbers by
   cache id. A caller is a call of `couchdb_call` that returned a Deferred; callers
   are numbered in that order, and so are the requests that are sent.

   A request may complete before the HTTP method returns. Firing a Deferred runs the
   callbacks of its caller, which may call again: `stack` is the code that is still
   to run, and what the callbacks call is a function of everything answered so far.
   The time that `if_modified_since` and the cleanup go by is `now`.

   What was asked, what was sent and what the requests came to is kept for the
   record, as are the request an entry was made for and the number of the last one
   sent for it; no code reads them. -/
namespace Feat.Database.Driver
open Hash Fallible

/-- A request as the server sees it. -/
structure Request where
  method : String
  url : String
  body : Option String
  accept : String
  deriving DecidableEq

/-- A call of `couchdb_call` with a cache id. -/
structure Call where
  cacheId : String
  request : Request
  parser : Parsers
  ifModifiedSince : Option Nat

/-- `"%s on %s"`. -/
def Call.tag (c : Call) : String := c.request.method ++ " on " ++ c.request.url

/-- What a request comes to. -/
inductive Arrival where
  | response (r : Http)
  | failed (cause : String)

/-- A call, and what its request comes to in case it is sent and completes at once. -/
structure Ask where
  call : Call
  reply : Option Arrival

inductive EntryState where
  | waiting | ready | invalid
  deriving DecidableEq

structure CacheEntry where
  tag : String
  parser : Parsers
  state : EntryState
  etag : Option String
  waiting : List Nat
  parsed : Option Outcome
  cachedAt : Option Nat
  freshAt : Option Nat
  numAccessed : Nat
  size : Option Nat
  request : Request
  flight : Nat
  sentAt : Nat

namespace CacheEntry

/-- `__init__`. -/
def new (c : Call) : CacheEntry :=
  ⟨c.tag, c.parser, .waiting, none, [], none, none, none, 0, none, c.request, 0, 0⟩

/-- What an arrival is for the callers, or `none` when the parser raises. -/
def comesTo (e : CacheEntry) : Arrival → Option (Option Outcome)
  | .failed cause => some (some (.failure (.transport cause)))
  | .response r =>
    if r.status = 304 then some e.parsed else (applyParsers r e.parser e.tag).map some

/-- `got_response` up to the loop over the waiting Deferreds. -/
def gotResponse (e : CacheEntry) (ctime : Nat) : Arrival → Option CacheEntry
  | .failed cause =>
    some { e with size := none, parsed := some (.failure (.transport cause)), state := .invalid }
  | .response r =>
    if r.status = 304 then some { e with state := .ready, freshAt := some ctime }
    else
      match applyParsers r e.parser e.tag with
      | none => none
      | some (.failure f) => some { e with parsed := some (.failure f), state := .invalid }
      | some (.value j) =>
        let e := { e with
          parsed := some (.value j)
          size := some r.body.length
          cachedAt := e.cachedAt.or (some ctime)
          freshAt := if e.cachedAt.isNone then some ctime else e.freshAt }
        match r.entityTag with
        | some etag => some { e with state := .ready, etag := some etag }
        | none => some { e with state := .invalid }

end CacheEntry

/-- A request under way. -/
structure Flight where
  no : Nat
  entry : Nat
  request : Request
  ifNoneMatch : Option String
  sentAt : Nat
  deriving DecidableEq

/-- A caller: the request it started, joined or was given the cached result of, and when that was
sent. -/
structure Caller where
  call : Call
  flight : Nat
  since : Nat

/-- A Deferred that was fired. -/
structure Answer where
  caller : Nat
  result : Option Outcome

/-- A function that is active. -/
inductive Frame where
  -- the rest of a callback
  | user (asks : List Ask)
  -- the loop over the waiting Deferreds at the end of `got_response`
  | fire (entry : Nat) (waiting : List Nat)
  -- `return entry.wait()` after the request has completed at once
  | wait (entry : Nat) (caller : Nat)

/-- What the cache is set up with: the size it keeps to, how the usage of an entry is rated, and
the order in which a dictionary is walked. -/
structure Settings (D : Type) where
  desiredSize : Nat
  density : Nat → Nat → D
  order : HashOrder String

/-- The driver, as far as it caches. -/
structure CouchDatabase where
  now : Nat
  operation : Nat
  cache : Dict String Nat
  heap : List CacheEntry
  flights : List Flight
  stack : List Frame
  callers : List Caller
  answers : List Answer
  sent : Nat
  completed : List (Nat × Option (Option Outcome))

/-- `Cache.OPERATIONS_PER_CLEANUP`. -/
def operationsPerCleanup : Nat := 500

/-- The usage of a ready entry. -/
structure Usage (D : Type) where
  density : D
  size : Nat
  ident : String

namespace CouchDatabase

/-- A driver that has just been created. -/
def new : CouchDatabase := ⟨1, 0, ∅, [], [], [], [], [], 0, []⟩

/-! ## The cache -/

section Cleanup
variable {D : Type} [LinearOrder D] (settings : Settings D)

/-- The order of the tuples in the list of usages: the larger entry first among equals. -/
def Usage.le (u v : Usage D) : Prop :=
  toLex (u.density, toLex (-(u.size : Int), u.ident)) ≤
    toLex (v.density, toLex (-(v.size : Int), v.ident))

instance (u v : Usage D) : Decidable (Usage.le u v) :=
  inferInstanceAs (Decidable (toLex (u.density, toLex (-(u.size : Int), u.ident)) ≤
    toLex (v.density, toLex (-(v.size : Int), v.ident))))

/-- The entries the cache holds. -/
def entries (s : CouchDatabase) : List (String × CacheEntry) :=
  (Dict.items settings.order s.cache).filterMap (fun p => (s.heap[p.2]?).map (fun e => (p.1, e)))

/-- The loop that expires the least used entries. The last one always stays. -/
def evict (desiredSize : Nat) : Nat → List (Usage D) → List String
  | _, [] => []
  | _, [_] => []
  | actual, u :: v :: usage =>
    if desiredSize < actual then u.ident :: evict desiredSize (actual - u.size) (v :: usage) else []

/-- The usage of an entry, or `none` when computing it raises: it has no size yet. -/
def usageOf (now : Nat) (p : String × CacheEntry) : Option (Usage D) := do
  let size ← p.2.size
  let cachedAt ← p.2.cachedAt
  return ⟨settings.density p.2.numAccessed (max (now - cachedAt) 1), size, p.1⟩

/-- `Cache.cleanup`. -/
def cleanup (s : CouchDatabase) : Option CouchDatabase := do
  let entries := s.entries settings
  let expire := (entries.filter (fun p => p.2.state = .invalid)).map Prod.fst
  let usage ← (entries.filter (fun p => p.2.state = .ready)).mapM (usageOf settings s.now)
  let actualSize := (usage.map Usage.size).sum
  let evicted := evict settings.desiredSize actualSize (usage.insertionSort Usage.le)
  return { s with cache := (expire ++ evicted).foldl (fun cache ident => cache.erase ident) s.cache }

/-- `Cache._bump_counter`. -/
def bumpCounter (s : CouchDatabase) : Option CouchDatabase :=
  let s := { s with operation := s.operation + 1 }
  if s.operation % operationsPerCleanup = 0 then s.cleanup settings else some s

end Cleanup

/-- `Cache.get_url` after the counter: the entry, unless it is invalid. -/
def getUrl (s : CouchDatabase) (ident : String) : Option (Nat × CacheEntry) := do
  let entry ← s.cache.lookup ident
  let e ← s.heap[entry]?
  if e.state = .invalid then none else some (entry, e)

/-- The entity tag of a 304. -/
def Arrival.notModified : Arrival → Option String
  | .response r => if r.status = 304 then r.entityTag else none
  | .failed _ => none

/-- `Cache.freshen_entries`: the entries of the cache with the entity tag of a 304. -/
def freshenEntries (s : CouchDatabase) (arrival : Arrival) : CouchDatabase :=
  { s with heap := s.heap.mapIdx fun i e =>
      if i ∈ s.cache.entries.map Sigma.snd ∧ (Arrival.notModified arrival).isSome ∧
          e.etag = Arrival.notModified arrival then
        { e with freshAt := some s.now }
      else e }

/-- A change of one entry. -/
def setEntry (s : CouchDatabase) (entry : Nat) (e : CacheEntry) : CouchDatabase :=
  { s with heap := s.heap.set entry e }

/-- A Deferred is fired. -/
def answer (s : CouchDatabase) (caller : Nat) (result : Option Outcome) : CouchDatabase :=
  { s with answers := s.answers ++ [⟨caller, result⟩] }

/-- `CacheEntry.wait`. -/
def wait (s : CouchDatabase) (entry caller : Nat) : CouchDatabase :=
  match s.heap[entry]? with
  | none => s
  | some e =>
    let e := { e with numAccessed := e.numAccessed + 1 }
    if e.state = .ready then (s.setEntry entry e).answer caller e.parsed
    else s.setEntry entry { e with waiting := e.waiting ++ [caller] }

/-- The loop over the Deferreds that were waiting. -/
def fire (entry : Nat) (waiting : List Nat) (rest : List Frame) : List Frame :=
  if waiting.isEmpty then rest else .fire entry waiting :: rest

/-- The callbacks of a request: `freshen_entries` and `got_response`. When the parser raises the
exception is left in the Deferred of the request, which nobody holds. -/
def complete (s : CouchDatabase) (flight entry : Nat) (arrival : Arrival) : CouchDatabase :=
  let s := s.freshenEntries arrival
  match s.heap[entry]? with
  | none => s
  | some e =>
    let s := { s with completed := (flight, e.comesTo arrival) :: s.completed }
    match e.gotResponse s.now arrival with
    | none => s
    | some e' =>
      { s.setEntry entry { e' with waiting := [] } with stack := fire entry e.waiting s.stack }

/-! ## The calls -/

/-- What a call does about the cache: nothing when cleaning up raised; wait with the others; reuse
the cached response; or send a request, with the entity tag of the cached response if there is
one. -/
inductive Plan where
  | raises
  | join (entry : Nat) (e : CacheEntry)
  | reuse (entry : Nat) (e : CacheEntry)
  | send (entry : Nat) (e : CacheEntry) (ifNoneMatch : Option String)

section Calls
variable {D : Type} [LinearOrder D] (settings : Settings D)

/-- `if_modified_since and if_modified_since < entry.fresh_at`. -/
def freshEnough (e : CacheEntry) (ifModifiedSince : Option Nat) : Bool :=
  match ifModifiedSince, e.freshAt with
  | some since, some freshAt => since ≠ 0 && since < freshAt
  | _, _ => false

/-- The first part of `couchdb_call`, up to the HTTP method. -/
def plan (s : CouchDatabase) (c : Call) : CouchDatabase × Plan :=
  match s.bumpCounter settings with
  | none => ({ s with operation := s.operation + 1 }, .raises)
  | some s =>
    match s.getUrl c.cacheId with
    | some (entry, e) =>
      if e.state = .waiting then (s, .join entry e)
      else match e.etag with
        | none => (s, .send entry e none)
        | some etag =>
          if freshEnough e c.ifModifiedSince then (s, .reuse entry e)
          else
            let e := { e with state := .waiting }
            (s.setEntry entry e, .send entry e (some etag))
    | none =>
      let entry := s.heap.length
      let e := CacheEntry.new c
      let s := { s with heap := s.heap ++ [e], cache := s.cache.insert c.cacheId entry }
      match s.bumpCounter settings with
      | none => ({ s with operation := s.operation + 1 }, .raises)
      | some s => (s, .send entry e none)

/-- A call has got a Deferred. -/
def addCaller (s : CouchDatabase) (c : Call) (flight since : Nat) : CouchDatabase :=
  { s with callers := s.callers ++ [⟨c, flight, since⟩] }

/-- The second part of `couchdb_call`: a request is sent. -/
def send (s : CouchDatabase) (ask : Ask) (entry : Nat) (e : CacheEntry)
    (ifNoneMatch : Option String) : CouchDatabase :=
  let flight := s.sent
  let caller := s.callers.length
  let s := { s.addCaller ask.call flight s.now with sent := s.sent + 1 }
  let s := s.setEntry entry { e with flight := flight, sentAt := s.now }
  match ask.reply with
  | none =>
    let sent : Flight := ⟨flight, entry, ask.call.request, ifNoneMatch, s.now⟩
    { s with flights := s.flights ++ [sent] }.wait entry caller
  | some arrival => { s with stack := .wait entry caller :: s.stack }.complete flight entry arrival

/-- `couchdb_call`. -/
def couchdbCall (s : CouchDatabase) (ask : Ask) : CouchDatabase :=
  match s.plan settings ask.call with
  | (s, .raises) => s
  | (s, .join entry e) => (s.addCaller ask.call e.flight e.sentAt).wait entry s.callers.length
  | (s, .reuse entry e) => (s.addCaller ask.call e.flight e.sentAt).wait entry s.callers.length
  | (s, .send entry e ifNoneMatch) => s.send ask entry e ifNoneMatch

variable (react : List Answer → List Ask)

/-- The first function on the stack runs on. -/
def run (s : CouchDatabase) : CouchDatabase :=
  match s.stack with
  | [] => s
  | .user [] :: rest => { s with stack := rest }
  | .user (ask :: asks) :: rest => { s with stack := .user asks :: rest }.couchdbCall settings ask
  | .fire _ [] :: rest => { s with stack := rest }
  | .fire entry (caller :: waiting) :: rest =>
    let s := s.answer caller ((s.heap[entry]?).bind CacheEntry.parsed)
    { s with stack := .user (react s.answers) :: .fire entry waiting :: rest }
  | .wait entry caller :: rest => { s with stack := rest }.wait entry caller

/-- What happens: the code runs on; a call is made from outside; a request completes; somebody
cleans up; time passes. -/
inductive Event where
  | run
  | call (ask : Ask)
  | arrive (i : Nat) (arrival : Arrival)
  | cleanup
  | tick (n : Nat)

/-- One event, when it can happen. -/
def step (s : CouchDatabase) : Event → Option CouchDatabase
  | .run => if s.stack.isEmpty then none else some (s.run settings react)
  | .call ask => if s.stack.isEmpty then some (s.couchdbCall settings ask) else none
  | .arrive i arrival =>
    match s.stack, s.flights[i]? with
    | [], some flight =>
      some ({ s with flights := s.flights.eraseIdx i }.complete flight.no flight.entry arrival)
    | _, _ => none
  | .cleanup => if s.stack.isEmpty then s.cleanup settings else none
  | .tick n => some { s with now := s.now + n }

/-! ## What an event does -/

/-- The request a call sends, when it sends one. -/
def sends (s : CouchDatabase) (c : Call) : Option (Nat × CacheEntry × Option String) :=
  match (s.plan settings c).2 with
  | .send entry e ifNoneMatch => some (entry, e, ifNoneMatch)
  | _ => none

/-- The call an event makes, and the state it is made in. -/
def asks (s : CouchDatabase) : Event → Option (CouchDatabase × Ask)
  | .call ask => some (s, ask)
  | .run => match s.stack with
    | .user (ask :: asks) :: rest => some ({ s with stack := .user asks :: rest }, ask)
    | _ => none
  | _ => none

/-- The request that completes in an event, with its entry and what it comes to. -/
def arrives (s : CouchDatabase) : Event → Option (Flight × CacheEntry × Arrival)
  | .arrive i arrival => do
    let flight ← s.flights[i]?
    let e ← s.heap[flight.entry]?
    return (flight, e, arrival)
  | _ => none

end Calls

/-! ## What a call plans -/

/-- Nothing but what is in `cache'`. -/
def Sub (cache cache' : Dict String Nat) : Prop :=
  ∀ ident i, cache.lookup ident = some i → cache'.lookup ident = some i

/-- The entries that are ready have a size, so that cleaning up does not raise. -/
def Sized (s : CouchDatabase) : Prop :=
  ∀ e ∈ s.heap, e.state = .ready → e.size.isSome ∧ e.cachedAt.isSome

/-- What a call plans when no cleanup raises: the cache may have been cleaned up before, and for
a new entry also after it was put there. -/
inductive Plans (s : CouchDatabase) (c : Call) : CouchDatabase × Plan → Prop where
  | join {operation : Nat} {cache : Dict String Nat} {entry : Nat} {e : CacheEntry} :
      Sub cache s.cache → cache.lookup c.cacheId = some entry → s.heap[entry]? = some e →
      e.state = .waiting →
      Plans s c ({ s with operation := operation, cache := cache }, .join entry e)
  | reuse {operation : Nat} {cache : Dict String Nat} {entry : Nat} {e : CacheEntry} :
      Sub cache s.cache → cache.lookup c.cacheId = some entry → s.heap[entry]? = some e →
      e.state = .ready →
      Plans s c ({ s with operation := operation, cache := cache }, .reuse entry e)
  | revalidate {operation : Nat} {cache : Dict String Nat} {entry : Nat} {e : CacheEntry}
      {etag : String} :
      Sub cache s.cache → cache.lookup c.cacheId = some entry → s.heap[entry]? = some e →
      e.state = .ready → e.etag = some etag →
      Plans s c
        ({ s with operation := operation, cache := cache }.setEntry entry { e with state := .waiting },
          .send entry { e with state := .waiting } (some etag))
  | resend {operation : Nat} {cache : Dict String Nat} {entry : Nat} {e : CacheEntry} :
      Sub cache s.cache → cache.lookup c.cacheId = some entry → s.heap[entry]? = some e →
      e.state = .ready → e.etag = none →
      Plans s c ({ s with operation := operation, cache := cache }, .send entry e none)
  | first {operation : Nat} {cache cache' : Dict String Nat} :
      Sub cache s.cache → Sub cache' (cache.insert c.cacheId s.heap.length) →
      Plans s c
        ({ s with operation := operation, cache := cache', heap := s.heap ++ [CacheEntry.new c] },
          .send s.heap.length (CacheEntry.new c) none)

section Plans
variable {D : Type} [LinearOrder D] {settings : Settings D} {s t : CouchDatabase}

theorem sub_foldl_erase (idents : List String) (cache : Dict String Nat) :
    Sub (idents.foldl (fun cache ident => cache.erase ident) cache) cache := by
  induction idents generalizing cache with
  | nil => exact fun _ _ hi => hi
  | cons ident idents ih =>
    intro ident' i hi
    have hi := ih (cache.erase ident) ident' i hi
    by_cases hident : ident' = ident
    · rw [hident, AList.lookup_erase] at hi
      cases hi
    · rwa [AList.lookup_erase_ne hident] at hi

theorem cleanup_sub (h : s.cleanup settings = some t) :
    ∃ cache, t = { s with cache := cache } ∧ Sub cache s.cache := by
  unfold cleanup at h
  simp only [Option.bind_eq_bind, Option.pure_def] at h
  obtain ⟨usage, _, h⟩ := Option.bind_eq_some_iff.mp h
  cases h
  exact ⟨_, rfl, sub_foldl_erase _ _⟩

variable (settings)

theorem cleanup_isSome (h : Sized s) : (s.cleanup settings).isSome := by
  have husage : ∀ p ∈ (s.entries settings).filter (fun p => p.2.state = .ready),
      (usageOf settings s.now p).isSome := by
    intro p hp
    obtain ⟨hp, hready⟩ := List.mem_filter.mp hp
    obtain ⟨q, _, hq⟩ := List.mem_filterMap.mp hp
    obtain ⟨e, he, rfl⟩ := Option.map_eq_some_iff.mp hq
    obtain ⟨hsize, hcachedAt⟩ := h e (List.mem_of_getElem? he) (by simpa using hready)
    obtain ⟨size, hsize⟩ := Option.isSome_iff_exists.mp hsize
    obtain ⟨cachedAt, hcachedAt⟩ := Option.isSome_iff_exists.mp hcachedAt
    simp [usageOf, hsize, hcachedAt]
  obtain ⟨usage, hall⟩ := Option.isSome_iff_exists.mp (isSome_mapM husage)
  simp [cleanup, hall]

theorem bumpCounter_cases (h : Sized s) : ∃ operation cache,
    s.bumpCounter settings = some { s with operation := operation, cache := cache } ∧
      Sub cache s.cache := by
  simp only [bumpCounter]
  split
  · have hsized : Sized { s with operation := s.operation + 1 } := h
    obtain ⟨t, ht⟩ := Option.isSome_iff_exists.mp (cleanup_isSome settings hsized)
    obtain ⟨cache, rfl, hsub⟩ := cleanup_sub ht
    exact ⟨_, cache, ht, hsub⟩
  · exact ⟨_, s.cache, rfl, fun _ _ hi => hi⟩

theorem getUrl_some {ident : String} {entry : Nat} {e : CacheEntry}
    (h : s.getUrl ident = some (entry, e)) :
    s.cache.lookup ident = some entry ∧ s.heap[entry]? = some e ∧ e.state ≠ .invalid := by
  unfold getUrl at h
  simp only [Option.bind_eq_bind] at h
  obtain ⟨i, hi, h⟩ := Option.bind_eq_some_iff.mp h
  obtain ⟨d, hd, h⟩ := Option.bind_eq_some_iff.mp h
  split at h
  · cases h
  · rename_i hvalid
    cases h
    exact ⟨hi, hd, hvalid⟩

theorem plan_cases (hsized : Sized s) (c : Call) : Plans s c (s.plan settings c) := by
  obtain ⟨operation, cache, hbump, hsub⟩ := bumpCounter_cases settings hsized
  unfold plan
  rw [hbump]
  simp only
  split
  · rename_i entry e hget
    obtain ⟨hlookup, hentry, hvalid⟩ := getUrl_some hget
    split
    · rename_i hstate
      exact .join hsub hlookup hentry hstate
    · rename_i hidle
      have hstate : e.state = .ready := by
        cases hstate : e.state with
        | waiting => exact absurd hstate hidle
        | ready => rfl
        | invalid => exact absurd hstate hvalid
      split
      · rename_i hetag
        exact .resend hsub hlookup hentry hstate hetag
      · rename_i etag hetag
        split
        · exact .reuse hsub hlookup hentry hstate
        · exact .revalidate hsub hlookup hentry hstate hetag
  · have hsized' : Sized { s with
        operation := operation
        heap := s.heap ++ [CacheEntry.new c]
        cache := cache.insert c.cacheId s.heap.length } := by
      intro e he hready
      rcases List.mem_append.mp he with he | he
      · exact hsized e he hready
      · cases List.mem_singleton.mp he
        cases hready
    obtain ⟨operation', cache', hbump', hsub'⟩ := bumpCounter_cases settings hsized'
    rw [hbump']
    exact .first hsub hsub'

end Plans
end CouchDatabase
end Feat.Database.Driver
