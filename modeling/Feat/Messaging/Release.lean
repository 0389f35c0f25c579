import Feat.Lib.Walk
import Feat.Messaging.Routing

/- The end of a channel and of a backend (`feat.agencies.messaging.messaging`:
   `Channel.release` and `Messaging.remove_backend`).

   Bindings are told apart by their numbers, and a channel does not hold one twice. The
   routes of its bindings are its own. Backends are told of a binding that is removed; one
   that refuses raises an exception, as `callRemote` does for a stale reference.

   Both operations walk a list while what they call erases from the same list, so that
   after each that is erased one is not looked at. A channel is released as promised if
   and only if it has at most one binding, which no backend refuses, and no two of its
   other routes are neighbours in the table; a backend is removed as promised if and only
   if no two of its routes are neighbours (`channel_released_iff`). -/
namespace Feat.Routing.Release
open Hash Walk

abbrev BackendId : Type := String

structure Binding where
  number : Nat
  route : Route
  deriving DecidableEq

structure Backend where
  sink : Sink
  refuses : Bool
  deriving DecidableEq

structure Messaging where
  backends : Dict BackendId Backend
  routing : Table

structure Channel where
  sink : Sink
  bindings : List Binding
  nodup : (bindings.map Binding.number).Nodup
  owned : ∀ b ∈ bindings, b.route.owner = sink

/-- A channel and what it is connected to, with the backends that were told of the removal
    of a binding. -/
structure State where
  messaging : Messaging
  bindings : List Binding
  told : List (BackendId × Nat)

/-- The loop of `remove_binding` over the backends, and whether it came to its end. -/
def tellRemoved (binding : Binding) : List (BackendId × Backend) → List (BackendId × Nat) × Bool
  | [] => ([], true)
  | (id, backend) :: backends =>
    if backend.refuses then ([(id, binding.number)], false)
    else
      let (told, returned) := tellRemoved binding backends
      ((id, binding.number) :: told, returned)

section Operations
variable (o : HashOrder BackendId)

/-- `Messaging.remove_binding`. -/
def removeBinding (binding : Binding) (s : State) : State × Bool :=
  let (told, returned) := tellRemoved binding (Dict.items o s.messaging.backends)
  ({ s with
      messaging := { s.messaging with routing := s.messaging.routing.removeRoute binding.route }
      told := s.told ++ told }, returned)

/-- `Channel.revoke_binding`. -/
def revokeBinding (binding : Binding) (s : State) : State × Bool :=
  removeBinding o binding { s with bindings := s.bindings.erase binding }

/-- The loop of `release`, which revokes bindings of the list that it walks. -/
def revokeFrom : Nat → Nat → State → State × Bool
  | 0, _, s => (s, true)
  | fuel + 1, i, s =>
    match s.bindings[i]? with
    | none => (s, true)
    | some binding =>
      match revokeBinding o binding s with
      | (s, false) => (s, false)
      | (s, true) => revokeFrom fuel (i + 1) s

/-- `Channel.release`. -/
def release (c : Channel) (m : Messaging) : State × Bool :=
  match revokeFrom o c.bindings.length 0 ⟨m, c.bindings, []⟩ with
  | (s, false) => (s, false)
  | (s, true) =>
    ({ s with messaging := { s.messaging with routing := s.messaging.routing.removeSink c.sink } },
      true)

/-- `Messaging.remove_backend`. -/
def removeBackend (id : BackendId) (m : Messaging) : Messaging :=
  match m.backends.lookup id with
  | none => m
  | some backend =>
    { m with
      backends := m.backends.erase id
      routing := m.routing.removeSink backend.sink }

end Operations

/-! ## What is promised -/

def isOwn (sink : Sink) (route : Route) : Bool := route.owner = sink

/-- The sink has no routes left, and those of others are as they were. -/
structure Forgotten (sink : Sink) (before after : Table) : Prop where
  none_left : ∀ route ∈ after.routes, route.owner ≠ sink
  not_outgoing : after.outgoingSink ≠ some sink
  others : after.routes = before.routes.filter fun route => !isOwn sink route

/-- The channel was released: nobody has anything of it. -/
structure Released (c : Channel) (m : Messaging) (after : State × Bool) : Prop where
  returned : after.2 = true
  forgotten : Forgotten c.sink m.routing after.1.messaging.routing
  told : ∀ id backend, m.backends.lookup id = some backend →
    ∀ binding ∈ c.bindings, after.1.told.count (id, binding.number) = 1
  empty : after.1.bindings = []

/-! ## Routes -/

variable {o : HashOrder BackendId} {c : Channel} {m : Messaging} {sink : Sink}

theorem removeSinkFrom_eq (sink : Sink) (fuel i : Nat) (routes : List Route) :
    Table.removeSinkFrom sink fuel i routes = eraseWalk (isOwn sink) fuel i routes := by
  induction fuel generalizing i routes with
  | zero => rfl
  | succ fuel ih =>
    unfold Table.removeSinkFrom eraseWalk
    cases routes[i]? with
    | none => rfl
    | some route => simp only [ih, isOwn, decide_eq_true_eq]

theorem filter_own_eq_self {routes : List Route} (h : ∀ route ∈ routes, route.owner ≠ sink) :
    (routes.filter fun route => !isOwn sink route) = routes :=
  List.filter_eq_self.mpr fun route hroute => by simpa [isOwn] using h route hroute

/-- What becomes of a sink that is removed when some of its routes were removed before. -/
theorem forgotten_removeSink {before t : Table}
    (h : (t.routes.filter fun route => !isOwn sink route) =
      before.routes.filter fun route => !isOwn sink route) :
    Forgotten sink before (t.removeSink sink) ↔ Apart (isOwn sink) t.routes := by
  have hclean := eraseWalk_clean_iff (p := isOwn sink) t.routes
  have hroutes : (t.removeSink sink).routes =
      eraseWalk (isOwn sink) t.routes.length 0 t.routes := removeSinkFrom_eq _ _ _ _
  constructor
  · intro hforgotten
    refine hclean.mp fun route hroute => ?_
    have := hforgotten.none_left route (by rw [hroutes]; exact hroute)
    simpa [isOwn] using this
  · intro hapart
    have hnone : ∀ route ∈ (t.removeSink sink).routes, route.owner ≠ sink := by
      intro route hroute
      rw [hroutes] at hroute
      simpa [isOwn] using hclean.mpr hapart route hroute
    refine ⟨hnone, ?_, ?_⟩
    · show (if t.outgoingSink = some sink then none else t.outgoingSink) ≠ some sink
      split
      · exact fun h => nomatch h
      · rename_i hother
        exact hother
    · rw [← h, ← filter_own_eq_self hnone, hroutes, filter_not_eraseWalk]

/-! ## Bindings -/

theorem tellRemoved_ok (binding : Binding) {backends : List (BackendId × Backend)}
    (h : ∀ p ∈ backends, p.2.refuses = false) :
    tellRemoved binding backends = (backends.map fun p => (p.1, binding.number), true) := by
  induction backends with
  | nil => rfl
  | cons p backends ih =>
    rw [tellRemoved, if_neg (by simp [h p List.mem_cons_self]),
      ih fun p' hp => h p' (List.mem_cons_of_mem _ hp)]
    rfl

theorem tellRemoved_refused (binding : Binding) {backends : List (BackendId × Backend)}
    (h : ¬ ∀ p ∈ backends, p.2.refuses = false) : (tellRemoved binding backends).2 = false := by
  induction backends with
  | nil => exact absurd (fun p hp => nomatch hp) h
  | cons p backends ih =>
    rw [tellRemoved]
    split
    · rfl
    · rename_i hp
      exact ih fun hrest => h (List.forall_mem_cons.mpr ⟨by simpa using hp, hrest⟩)

/-- No backend refuses to be told. -/
def Messaging.Willing (m : Messaging) : Prop :=
  ∀ id backend, m.backends.lookup id = some backend → backend.refuses = false

theorem willing_iff (o : HashOrder BackendId) :
    m.Willing ↔ ∀ p ∈ Dict.items o m.backends, p.2.refuses = false :=
  ⟨fun h p hp => h p.1 p.2 (Dict.mem_items.mp hp),
    fun h id backend hlookup => h (id, backend) (Dict.mem_items.mpr hlookup)⟩

/-- When the loop comes to its end, the bindings have been walked. -/
theorem bindings_revokeFrom {fuel i : Nat} {s t : State} (h : revokeFrom o fuel i s = (t, true)) :
    t.bindings = eraseWalk (fun _ => true) fuel i s.bindings := by
  induction fuel generalizing i s with
  | zero =>
    obtain ⟨rfl, -⟩ := Prod.mk.inj h
    rfl
  | succ fuel ih =>
    unfold revokeFrom at h
    unfold eraseWalk
    split at h
    · rename_i hend
      obtain ⟨rfl, -⟩ := Prod.mk.inj h
      rw [hend]
    · rename_i binding hat
      rw [hat]
      dsimp only
      rw [if_pos rfl]
      split at h
      · cases h
      · rename_i s' hrevoked
        have hbindings : s'.bindings = s.bindings.erase binding := by
          have hfirst := congrArg (fun r => r.1.bindings) hrevoked
          exact hfirst.symm
        rw [ih h, hbindings]

/-- Two bindings are neighbours of each other. -/
theorem apart_all_iff {l : List Binding} : Apart (fun _ => true) l ↔ l.length ≤ 1 := by
  unfold Apart
  cases l with
  | nil => simp
  | cons a l =>
    cases l with
    | nil => simp
    | cons b l => simp

/-- The condition under which a channel is released as promised. -/
def Releasable (c : Channel) (m : Messaging) : Prop :=
  match c.bindings with
  | [] => Apart (isOwn c.sink) m.routing.routes
  | [binding] => m.Willing ∧ Apart (isOwn c.sink) (m.routing.routes.erase binding.route)
  | _ :: _ :: _ => False

theorem release_nil (h : c.bindings = []) :
    release o c m = (⟨{ m with routing := m.routing.removeSink c.sink }, [], []⟩, true) := by
  unfold release
  rw [h]
  rfl

theorem released_iff_of_nil (h : c.bindings = []) :
    Released c m (release o c m) ↔ Apart (isOwn c.sink) m.routing.routes := by
  rw [release_nil h]
  constructor
  · exact fun hreleased => (forgotten_removeSink rfl).mp hreleased.forgotten
  · intro hapart
    refine ⟨rfl, (forgotten_removeSink rfl).mpr hapart, fun id backend _ binding hb => ?_, rfl⟩
    rw [h] at hb
    cases hb

/-- The channel has one binding, which no backend refuses. -/
theorem release_single {binding : Binding} (h : c.bindings = [binding]) (hwilling : m.Willing) :
    release o c m =
      (⟨{ m with routing := (m.routing.removeRoute binding.route).removeSink c.sink }, [],
        (Dict.items o m.backends).map fun p => (p.1, binding.number)⟩, true) := by
  have htold := tellRemoved_ok binding ((willing_iff o).mp hwilling)
  have hrevoke : revokeBinding o binding ⟨m, [binding], []⟩ =
      (⟨{ m with routing := m.routing.removeRoute binding.route }, [],
        (Dict.items o m.backends).map fun p => (p.1, binding.number)⟩, true) := by
    unfold revokeBinding removeBinding
    dsimp only
    rw [htold]
    simp
  have hloop : revokeFrom o 1 0 ⟨m, [binding], []⟩ =
      revokeBinding o binding ⟨m, [binding], []⟩ := by
    rw [hrevoke]
    show (match revokeBinding o binding ⟨m, [binding], []⟩ with
      | (s, false) => (s, false)
      | (s, true) => revokeFrom o 0 1 s) = _
    rw [hrevoke]
    rfl
  unfold release
  rw [h]
  show (match revokeFrom o 1 0 ⟨m, [binding], []⟩ with
    | (s, false) => (s, false)
    | (s, true) => _) = _
  rw [hloop, hrevoke]

theorem release_refused {binding : Binding} (h : c.bindings = [binding])
    (hrefused : ¬ m.Willing) : (release o c m).2 = false := by
  have htold := tellRemoved_refused binding fun hall => hrefused ((willing_iff o).mpr hall)
  have hrevoke : (revokeBinding o binding ⟨m, [binding], []⟩).2 = false := htold
  have hloop : (revokeFrom o 1 0 ⟨m, [binding], []⟩).2 = false := by
    show (match revokeBinding o binding ⟨m, [binding], []⟩ with
      | (s, false) => (s, false)
      | (s, true) => revokeFrom o 0 1 s).2 = false
    split
    · rfl
    · rename_i heq
      rw [heq] at hrevoke
      cases hrevoke
  unfold release
  rw [h]
  split
  · rfl
  · rename_i heq
    have heq : revokeFrom o 1 0 ⟨m, [binding], []⟩ = (_, true) := heq
    rw [heq] at hloop
    cases hloop

theorem released_iff_of_single {binding : Binding} (h : c.bindings = [binding]) :
    Released c m (release o c m) ↔
      m.Willing ∧ Apart (isOwn c.sink) (m.routing.routes.erase binding.route) := by
  by_cases hwilling : m.Willing
  · have hown : isOwn c.sink binding.route = true := by
      simpa [isOwn] using c.owned binding (by rw [h]; exact List.mem_singleton_self _)
    have hothers : ((m.routing.removeRoute binding.route).routes.filter fun route =>
        !isOwn c.sink route) = m.routing.routes.filter fun route => !isOwn c.sink route :=
      filter_not_erase hown
    rw [release_single h hwilling]
    constructor
    · exact fun hreleased => ⟨hwilling, (forgotten_removeSink hothers).mp hreleased.forgotten⟩
    · rintro ⟨-, hapart⟩
      have hforgotten := (forgotten_removeSink hothers).mpr hapart
      refine ⟨rfl, hforgotten, fun id backend hlookup b hb => ?_, rfl⟩
      rw [h, List.mem_singleton] at hb
      subst hb
      refine List.count_eq_one_of_mem ?_ ?_
      · have hkeys := Dict.keys_nodup_items o m.backends
        have hpairs : ((Dict.items o m.backends).map fun p => (p.1, b.number)) =
            ((Dict.items o m.backends).map Prod.fst).map fun id => (id, b.number) := by
          rw [List.map_map]
          rfl
        rw [hpairs]
        exact hkeys.map fun id id' he => (Prod.mk.inj he).1
      · exact List.mem_map.mpr ⟨(id, backend), Dict.mem_items.mpr hlookup, rfl⟩
  · refine iff_of_false (fun hreleased => ?_) fun hall => hwilling hall.1
    have hreturned := hreleased.returned
    rw [release_refused h hwilling] at hreturned
    cases hreturned

/-- With more than one binding, one is left. -/
theorem not_released_of_many (h : 2 ≤ c.bindings.length) : ¬ Released c m (release o c m) := by
  intro hreleased
  have hreturned := hreleased.returned
  have hempty := hreleased.empty
  unfold release at hreturned hempty
  split at hreturned
  · cases hreturned
  · rename_i s hloop
    rw [hloop] at hempty
    have hempty : s.bindings = [] := hempty
    have hwalk := bindings_revokeFrom hloop
    rw [hempty] at hwalk
    have hapart := (eraseWalk_clean_iff (p := fun _ => true) c.bindings).mp fun a ha => by
      rw [← hwalk] at ha
      cases ha
    have hle := apart_all_iff.mp hapart
    omega

/-- A channel is released as promised if and only if it has at most one binding, which no
    backend refuses, and no two of its other routes are neighbours; and a backend is
    removed as promised if and only if no two of its routes are. -/
theorem channel_released_iff (o : HashOrder BackendId) (c : Channel) (m : Messaging) :
    (Released c m (release o c m) ↔ Releasable c m) ∧
      ∀ id backend, m.backends.lookup id = some backend →
        (Forgotten backend.sink m.routing (removeBackend id m).routing ↔
          Apart (isOwn backend.sink) m.routing.routes) := by
  constructor
  · unfold Releasable
    split
    · rename_i h
      exact released_iff_of_nil h
    · rename_i binding h
      exact released_iff_of_single h
    · rename_i h
      exact iff_of_false (not_released_of_many (by rw [h]; simp)) id
  · intro id backend hlookup
    unfold removeBackend
    rw [hlookup]
    exact forgotten_removeSink rfl

/-- A channel with a binding for each of four keys, and its routes. -/
def fourRoutes : List Route :=
  ["a", "b", "c", "d"].map fun key => ⟨7, 0, some (key, none), false⟩

def fourBindings : Channel where
  sink := 7
  bindings := fourRoutes.zipIdx.map fun p => ⟨p.2, p.1⟩
  nodup := by decide
  owned := by decide

/-- The channel is released, and still has a route and two bindings. -/
theorem route_left : ¬ Released fourBindings ⟨∅, { Table.new with routes := fourRoutes }⟩
      (release .stored fourBindings ⟨∅, { Table.new with routes := fourRoutes }⟩) ∧
    (release .stored fourBindings ⟨∅, { Table.new with routes := fourRoutes }⟩).2 = true ∧
    ∃ route ∈ (release .stored fourBindings
        ⟨∅, { Table.new with routes := fourRoutes }⟩).1.messaging.routing.routes,
      route.owner = fourBindings.sink := by
  have hleft : ∃ route ∈ (release .stored fourBindings
      ⟨∅, { Table.new with routes := fourRoutes }⟩).1.messaging.routing.routes,
      route.owner = fourBindings.sink := by
    decide +kernel
  refine ⟨fun h => ?_, by decide +kernel, hleft⟩
  obtain ⟨route, hroute, howner⟩ := hleft
  exact h.forgotten.none_left route hroute howner

end Feat.Routing.Release
