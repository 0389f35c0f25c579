import Feat.Agencies.SharedStateConverges

/- Which changes of the shared state are made whole or not at all
   (`feat.agencies.net.broker`: `SharedState`, `Broker.update_state_broadcast`).

   Each operation changes the local copy first and calls `update_state_broadcast` then.
   That raises when the broker is disconnected, and when it meets a stale reference, as
   `callRemote` raises for these at once (`Remote.stale`). `setdefault` is the one of
   `dict` itself, which knows of no broker.

   An operation is `Whole` when the copy is as before if it raised, and when what has
   changed was sent to all peers if it did not. It is so if and only if it changes
   nothing, or the broker can broadcast and it is not `setdefault`, unless there are no
   peers (`whole_iff`). -/
namespace Feat.Agencies.SharedState
open Hash

variable {ι κ α : Type} [DecidableEq ι] [DecidableEq κ]

inductive BrokerRole where
  | disconnected
  | master
  | slave
  deriving DecidableEq

/-- A reference to the broker of another agency. -/
structure Remote (ι : Type) where
  agencyId : ι
  stale : Bool
  deriving DecidableEq

/-- A broker: its slaves in the order in which they are iterated, and its master. -/
structure Broker (ι : Type) where
  role : BrokerRole
  agencyId : ι
  slaves : List (Remote ι)
  master : Remote ι

/-- What is called on a remote broker. -/
inductive RemoteCall (ι κ α : Type) where
  | updateState (method : Method κ α)
  | updateStateBroadcast (method : Method κ α) (agencyId : ι)

inductive MutateError (κ : Type) where
  | runtimeError (text : String)
  | deadReferenceError
  | keyError (text : String)

/-- `_ensure_connected`. -/
def Broker.ensureConnected (b : Broker ι) : Except (MutateError κ) Unit :=
  if b.role = .disconnected then .error (.runtimeError "Events can only work on connected broker")
  else .ok ()

/-- The loop over the slaves: the calls that were made, up to a stale reference. -/
def Broker.callSlaves (b : Broker ι) (method : Method κ α) :
    List (Remote ι) → List (ι × RemoteCall ι κ α) × Except (MutateError κ) Unit
  | [] => ([], .ok ())
  | slave :: slaves =>
    if slave.agencyId ≠ b.agencyId then
      if slave.stale then ([], .error .deadReferenceError)
      else
        let (calls, res) := b.callSlaves method slaves
        ((slave.agencyId, .updateState method) :: calls, res)
    else b.callSlaves method slaves

/-- `update_state_broadcast`, for a change of its own agency. -/
def Broker.updateStateBroadcast (b : Broker ι) (method : Method κ α) :
    List (ι × RemoteCall ι κ α) × Except (MutateError κ) Unit :=
  match b.ensureConnected with
  | .error e => ([], .error e)
  | .ok () =>
    match b.role with
    | .master => b.callSlaves method b.slaves
    | .slave =>
      if b.master.stale then ([], .error .deadReferenceError)
      else ([(b.master.agencyId, .updateStateBroadcast method b.agencyId)], .ok ())
    | .disconnected => ([], .ok ())

/-! ## The operations -/

/-- The operations of a dictionary that change it. -/
inductive Mutator (κ α : Type) where
  | setitem (key : κ) (value : α)
  | delitem (key : κ)
  | clear
  | pop (key : κ)
  | popitem
  | update (dict_ : Dict κ α)
  | setdefault (key : κ) (default : α)

/-- What an operation returns. -/
inductive Returned (κ α : Type) where
  | none
  | value (value : α)
  | item (key : κ) (value : α)

/-- What became of the local copy, what was called, and what was returned or raised. -/
structure Mutated (ι κ α : Type) where
  state : Dict κ α
  calls : List (ι × RemoteCall ι κ α)
  res : Except (MutateError κ) (Returned κ α)

/-- The copy has been changed, and the method is broadcast. -/
def thenBroadcast (b : Broker ι) (state : Dict κ α) (method : Method κ α)
    (returned : Returned κ α) : Mutated ι κ α :=
  let (calls, res) := b.updateStateBroadcast method
  ⟨state, calls, res.map fun _ => returned⟩

/-- The operations of `SharedState`. -/
def mutate (o : HashOrder κ) (b : Broker ι) (d : Dict κ α) : Mutator κ α → Mutated ι κ α
  | .setitem key value => thenBroadcast b (d.insert key value) (.setLocally key value) .none
  | .delitem key => thenBroadcast b (delLocally d key) (.delLocally key) .none
  | .clear => thenBroadcast b (clearLocally d) .clearLocally .none
  | .pop key =>
    match d.lookup key with
    | none => ⟨d, [], .error (.keyError "%s key not found!")⟩
    | some value => thenBroadcast b (d.erase key) (.delLocally key) (.value value)
  | .popitem =>
    match Dict.items o d with
    | [] => ⟨d, [], .error (.keyError "popitem(): dictionary is empty")⟩
    | (key, value) :: _ => thenBroadcast b (d.erase key) (.delLocally key) (.item key value)
  | .update dict_ =>
    thenBroadcast b (updateLocally d (Dict.items o dict_)) (.updateLocally (Dict.items o dict_))
      .none
  | .setdefault key default =>
    match d.lookup key with
    | some value => ⟨d, [], .ok (.value value)⟩
    | none => ⟨d.insert key default, [], .ok (.value default)⟩

/-! ## What is whole -/

variable {o : HashOrder κ} {b : Broker ι} {d d' : Dict κ α} {m : Mutator κ α}
  {method : Method κ α} {returned : Returned κ α}

/-- They hold the same. -/
def SameContent (d d' : Dict κ α) : Prop := ∀ k, d.lookup k = d'.lookup k

/-- The calls by which a method is broadcast. -/
def Broker.broadcastCalls (b : Broker ι) (method : Method κ α) : List (ι × RemoteCall ι κ α) :=
  match b.role with
  | .disconnected => []
  | .master =>
    (b.slaves.filter fun slave => slave.agencyId ≠ b.agencyId).map fun slave =>
      (slave.agencyId, .updateState method)
  | .slave => [(b.master.agencyId, .updateStateBroadcast method b.agencyId)]

/-- The broker is connected, and none of those it calls is stale. -/
def Broker.CanBroadcast (b : Broker ι) : Prop :=
  match b.role with
  | .disconnected => False
  | .master => ∀ slave ∈ b.slaves, slave.agencyId ≠ b.agencyId → slave.stale = false
  | .slave => b.master.stale = false

instance (b : Broker ι) : Decidable b.CanBroadcast := by
  unfold Broker.CanBroadcast
  cases b.role <;> infer_instance

/-- What raised changed nothing, and what did not was broadcast if it changed something. -/
structure Whole (b : Broker ι) (d : Dict κ α) (r : Mutated ι κ α) : Prop where
  unchanged : (∃ e, r.res = .error e) → SameContent d r.state
  broadcast : (∃ returned, r.res = .ok returned) → ¬ SameContent d r.state →
    b.CanBroadcast ∧ ∃ method, SameContent (updateState d method) r.state ∧
      r.calls = b.broadcastCalls method

/-- The operation has something to change. -/
def Mutator.Changes (d : Dict κ α) : Mutator κ α → Prop
  | .setitem key value => d.lookup key ≠ some value
  | .delitem key => key ∈ d
  | .clear => ∃ key, key ∈ d
  | .pop key => key ∈ d
  | .popitem => ∃ key, key ∈ d
  | .update dict_ => ∃ key value, dict_.lookup key = some value ∧ d.lookup key ≠ some value
  | .setdefault key _ => key ∉ d

/-- There are no peers to be told. -/
def Broker.Alone (b : Broker ι) : Prop :=
  b.role = .master ∧ ∀ slave ∈ b.slaves, slave.agencyId = b.agencyId

def Mutator.IsSetdefault : Mutator κ α → Prop
  | .setdefault _ _ => True
  | _ => False

/-! ## Broadcasting -/

omit [DecidableEq κ] in
theorem callSlaves_ok {slaves : List (Remote ι)}
    (h : ∀ slave ∈ slaves, slave.agencyId ≠ b.agencyId → slave.stale = false) :
    b.callSlaves method slaves =
      ((slaves.filter fun slave => slave.agencyId ≠ b.agencyId).map fun slave =>
        (slave.agencyId, .updateState method), .ok ()) := by
  induction slaves with
  | nil => rfl
  | cons slave slaves ih =>
    have hrest := ih fun s hs => h s (List.mem_cons_of_mem _ hs)
    rw [Broker.callSlaves, hrest]
    by_cases hown : slave.agencyId = b.agencyId
    · rw [if_neg (not_not.mpr hown), List.filter_cons_of_neg (by simpa using hown)]
    · rw [if_pos hown, if_neg (by simp [h slave List.mem_cons_self hown]),
        List.filter_cons_of_pos (by simpa using hown), List.map_cons]

omit [DecidableEq κ] in
theorem callSlaves_error {slaves : List (Remote ι)}
    (h : ¬ ∀ slave ∈ slaves, slave.agencyId ≠ b.agencyId → slave.stale = false) :
    (b.callSlaves method slaves).2 = .error .deadReferenceError := by
  induction slaves with
  | nil => exact absurd (fun slave hs => nomatch hs) h
  | cons slave slaves ih =>
    rw [Broker.callSlaves]
    by_cases hown : slave.agencyId = b.agencyId
    · rw [if_neg (not_not.mpr hown)]
      exact ih fun hrest => h (List.forall_mem_cons.mpr ⟨absurd hown, hrest⟩)
    · rw [if_pos hown]
      split
      · rfl
      · rename_i hstale
        have hlive : slave.stale = false := by simpa using hstale
        exact ih fun hrest => h (List.forall_mem_cons.mpr ⟨fun _ => hlive, hrest⟩)

omit [DecidableEq κ] in
theorem broadcast_ok (h : b.CanBroadcast) :
    b.updateStateBroadcast method = (b.broadcastCalls method, .ok ()) := by
  unfold Broker.updateStateBroadcast Broker.ensureConnected Broker.broadcastCalls
  unfold Broker.CanBroadcast at h
  cases hrole : b.role with
  | disconnected => rw [hrole] at h; exact h.elim
  | master =>
    rw [hrole] at h
    exact callSlaves_ok h
  | slave =>
    rw [hrole] at h
    have hstale : b.master.stale = false := h
    simp [hstale]

omit [DecidableEq κ] in
theorem broadcast_error (method : Method κ α) (h : ¬ b.CanBroadcast) :
    ∃ e, (b.updateStateBroadcast method).2 = .error e := by
  unfold Broker.updateStateBroadcast Broker.ensureConnected
  unfold Broker.CanBroadcast at h
  cases hrole : b.role with
  | disconnected => exact ⟨_, rfl⟩
  | master =>
    rw [hrole] at h
    exact ⟨_, callSlaves_error h⟩
  | slave =>
    rw [hrole] at h
    have hstale : b.master.stale = true := by simpa using h
    simp [hstale]

/-- What is broadcast is whole if and only if the broker can broadcast, or nothing was
    changed. -/
theorem whole_thenBroadcast (hsame : SameContent (updateState d method) d') :
    Whole b d (thenBroadcast b d' method returned) ↔ (SameContent d d' ∨ b.CanBroadcast) := by
  by_cases hcan : b.CanBroadcast
  · refine iff_of_true ?_ (.inr hcan)
    unfold thenBroadcast
    rw [broadcast_ok hcan]
    refine ⟨fun ⟨e, he⟩ => (nomatch he), fun _ _ => ⟨hcan, method, hsame, rfl⟩⟩
  · obtain ⟨e, he⟩ := broadcast_error method hcan
    have hres : (thenBroadcast b d' method returned).res = .error e := by
      unfold thenBroadcast
      dsimp only
      rw [he]
      rfl
    constructor
    · exact fun h => .inl (h.unchanged ⟨e, hres⟩)
    · rintro (h | h)
      · refine ⟨fun _ => h, fun ⟨returned', hok⟩ => ?_⟩
        rw [hres] at hok
        cases hok
      · exact absurd h hcan

/-! ## The operations are whole -/

theorem sameContent_insert {key : κ} {value : α} :
    SameContent d (d.insert key value) ↔ d.lookup key = some value := by
  constructor
  · intro h
    rw [h key, AList.lookup_insert]
  · intro h k
    by_cases hk : k = key
    · rw [hk, AList.lookup_insert, h]
    · rw [AList.lookup_insert_ne hk]

theorem sameContent_erase {key : κ} : SameContent d (d.erase key) ↔ d.lookup key = none := by
  constructor
  · intro h
    rw [h key, AList.lookup_erase]
  · intro h k
    by_cases hk : k = key
    · rw [hk, AList.lookup_erase, h]
    · rw [AList.lookup_erase_ne hk]

theorem lookup_delLocally_eq_erase (d : Dict κ α) (key k : κ) :
    (delLocally d key).lookup k = (d.erase key).lookup k := by
  rw [lookup_delLocally]
  by_cases hk : k = key
  · rw [if_pos hk, hk, AList.lookup_erase]
  · rw [if_neg hk, AList.lookup_erase_ne hk]

theorem sameContent_delLocally {key : κ} :
    SameContent d (delLocally d key) ↔ d.lookup key = none := by
  rw [← sameContent_erase]
  unfold SameContent
  simp only [lookup_delLocally_eq_erase]

theorem sameContent_clearLocally : SameContent d (clearLocally d) ↔ ¬ ∃ key, key ∈ d := by
  unfold SameContent
  simp only [lookup_clearLocally, AList.lookup_eq_none, not_exists]

theorem sameContent_update {dict_ : Dict κ α} :
    SameContent d (updateLocally d (Dict.items o dict_)) ↔
      ¬ ∃ key value, dict_.lookup key = some value ∧ d.lookup key ≠ some value := by
  have hlookup : ∀ k, (updateLocally d (Dict.items o dict_)).lookup k =
      (dict_.lookup k).or (d.lookup k) := by
    intro k
    have hlast : lastOf (Dict.items o dict_) k = dict_.lookup k :=
      Option.some.inj (congrFun (write_items o dict_) k)
    rw [lookup_updateLocally, hlast]
  unfold SameContent
  simp only [hlookup]
  push Not
  constructor
  · intro h key value hvalue
    rw [h key, hvalue]
    rfl
  · intro h k
    cases hvalue : dict_.lookup k with
    | none => rfl
    | some value => rw [h k value hvalue]; rfl

/-- An operation that raises a KeyError has changed nothing, and had nothing to change. -/
theorem whole_of_raised {r : Mutated ι κ α} (hstate : r.state = d) {e : MutateError κ}
    (hres : r.res = .error e) : Whole b d r where
  unchanged _ := by rw [hstate]; exact fun _ => rfl
  broadcast := fun ⟨returned, hok⟩ => by rw [hres] at hok; cases hok

/-- What is changed and not sent is whole if there is nobody to send it to. -/
theorem whole_silent (method : Method κ α) (hsame : SameContent (updateState d method) d')
    (hchanged : ¬ SameContent d d') :
    Whole b d ⟨d', [], .ok returned⟩ ↔ b.Alone := by
  constructor
  · intro h
    obtain ⟨hcan, method', -, hcalls⟩ := h.broadcast ⟨returned, rfl⟩ hchanged
    unfold Broker.CanBroadcast at hcan
    unfold Broker.broadcastCalls at hcalls
    cases hrole : b.role with
    | disconnected => rw [hrole] at hcan; exact hcan.elim
    | slave => rw [hrole] at hcalls; cases hcalls
    | master =>
      rw [hrole] at hcalls
      refine ⟨hrole, fun slave hs => ?_⟩
      have hempty := List.filter_eq_nil_iff.mp (List.map_eq_nil_iff.mp hcalls.symm) slave hs
      simpa using hempty
  · rintro ⟨hrole, hown⟩
    refine ⟨fun ⟨e, he⟩ => (nomatch he), fun _ _ => ⟨?_, method, hsame, ?_⟩⟩
    · unfold Broker.CanBroadcast
      rw [hrole]
      exact fun slave hs hne => absurd (hown slave hs) hne
    · have hempty : (b.slaves.filter fun slave => slave.agencyId ≠ b.agencyId) = [] :=
        List.filter_eq_nil_iff.mpr fun slave hs => by simpa using hown slave hs
      unfold Broker.broadcastCalls
      rw [hrole]
      dsimp only
      rw [hempty]
      rfl

/-- An operation is whole if and only if it has nothing to change, or the broker can
    broadcast and it is not `setdefault`, unless there are no peers. -/
theorem whole_iff (o : HashOrder κ) (b : Broker ι) (d : Dict κ α) (m : Mutator κ α) :
    Whole b d (mutate o b d m) ↔
      ¬ m.Changes d ∨ (b.CanBroadcast ∧ (m.IsSetdefault → b.Alone)) := by
  have hbroadcast : ∀ {d' : Dict κ α} {method : Method κ α} {returned : Returned κ α},
      SameContent (updateState d method) d' → (SameContent d d' ↔ ¬ m.Changes d) →
      ¬ m.IsSetdefault →
      (Whole b d (thenBroadcast b d' method returned) ↔
        ¬ m.Changes d ∨ (b.CanBroadcast ∧ (m.IsSetdefault → b.Alone))) := by
    intro d' method returned hsame hchanges hset
    rw [whole_thenBroadcast hsame, hchanges]
    exact or_congr_right (and_iff_left fun h => absurd h hset).symm
  cases m with
  | setitem key value =>
    refine hbroadcast (fun _ => rfl) ?_ id
    rw [sameContent_insert, Mutator.Changes, not_not]
  | delitem key =>
    refine hbroadcast (fun _ => rfl) ?_ id
    rw [sameContent_delLocally, Mutator.Changes, AList.lookup_eq_none]
  | clear =>
    refine hbroadcast (fun _ => rfl) ?_ id
    rw [sameContent_clearLocally, Mutator.Changes]
  | pop key =>
    rw [mutate]
    cases hlookup : d.lookup key with
    | none =>
      refine iff_of_true (whole_of_raised rfl rfl) (.inl ?_)
      exact AList.lookup_eq_none.mp hlookup
    | some value =>
      refine hbroadcast (lookup_delLocally_eq_erase d key) ?_ id
      rw [sameContent_erase, Mutator.Changes, AList.lookup_eq_none]
  | popitem =>
    rw [mutate]
    cases hitems : Dict.items o d with
    | nil =>
      refine iff_of_true (whole_of_raised rfl rfl) (.inl ?_)
      rintro ⟨key, hkey⟩
      obtain ⟨value, hvalue⟩ := Option.isSome_iff_exists.mp (AList.lookup_isSome.mpr hkey)
      have hmem := Dict.mem_items (o := o).mpr hvalue
      rw [hitems] at hmem
      cases hmem
    | cons item items =>
      have hvalue : d.lookup item.1 = some item.2 :=
        Dict.mem_items.mp (by rw [hitems]; exact List.mem_cons_self)
      have hkey : item.1 ∈ d := AList.lookup_isSome.mp (by rw [hvalue]; rfl)
      refine hbroadcast (lookup_delLocally_eq_erase d item.1) ?_ id
      rw [sameContent_erase, Mutator.Changes, AList.lookup_eq_none]
      exact ⟨fun h => absurd hkey h, fun h => absurd ⟨item.1, hkey⟩ h⟩
  | update dict_ =>
    refine hbroadcast (fun _ => rfl) ?_ id
    rw [sameContent_update, Mutator.Changes]
  | setdefault key default =>
    rw [mutate]
    cases hlookup : d.lookup key with
    | some value =>
      refine iff_of_true ⟨fun ⟨e, he⟩ => (nomatch he), fun _ hne => absurd (fun _ => rfl) hne⟩ ?_
      refine .inl (not_not.mpr ?_)
      exact AList.lookup_isSome.mp (by rw [hlookup]; rfl)
    | none =>
      have hmissing : key ∉ d := AList.lookup_eq_none.mp hlookup
      have hchanged : ¬ SameContent d (d.insert key default) := by
        rw [sameContent_insert, hlookup]
        exact fun h => nomatch h
      dsimp only
      have hsilent : Whole b d ⟨d.insert key default, [], .ok (.value default)⟩ ↔ b.Alone :=
        whole_silent (.setLocally key default) (fun _ => rfl) hchanged
      rw [hsilent]
      constructor
      · intro h
        refine .inr ⟨?_, fun _ => h⟩
        unfold Broker.CanBroadcast
        rw [h.1]
        exact fun slave hs hne => absurd (h.2 slave hs) hne
      · rintro (h | h)
        · exact absurd hmissing h
        · exact h.2 trivial

/-- An assignment on a broker that is disconnected raises, and has changed the state. -/
theorem changed_though_disconnected : ∃ e,
    (mutate .stored (⟨.disconnected, 0, [], ⟨1, false⟩⟩ : Broker Nat) (∅ : Dict Nat Nat)
      (.setitem 7 10)).res = .error e ∧
    (mutate .stored (⟨.disconnected, 0, [], ⟨1, false⟩⟩ : Broker Nat) (∅ : Dict Nat Nat)
      (.setitem 7 10)).state.lookup 7 = some 10 ∧
    ¬ Whole (⟨.disconnected, 0, [], ⟨1, false⟩⟩ : Broker Nat) (∅ : Dict Nat Nat)
      (mutate .stored ⟨.disconnected, 0, [], ⟨1, false⟩⟩ ∅ (.setitem 7 10)) := by
  refine ⟨_, rfl, rfl, fun h => ?_⟩
  have hsame := h.unchanged ⟨_, rfl⟩ 7
  cases hsame

end Feat.Agencies.SharedState
