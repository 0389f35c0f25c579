import Feat.Agencies.SharedState

/- The shared state converges.

   Every method overwrites, so each slave follows the master as a replica does
   (`Slave.Follows`): its own changes are on their way up until the master sends
   them back in the order it applied them in, and the reply to the handshake is a
   copy of all the master holds. So when no call is in flight the state of every
   slave is the state of the master (`states_equal`). -/
namespace Feat.Agencies.SharedState
open Hash Replica Transition

variable {ι κ α : Type} [DecidableEq ι] [DecidableEq κ]

/-! ## Methods overwrite -/

/-- The value that the items give a key. -/
def lastOf (items : List (κ × α)) (k : κ) : Option α :=
  (items.reverse.find? (fun p => p.1 = k)).map Prod.snd

/-- What a method writes at a key: a value or that there is none. -/
def Method.write : Method κ α → Write κ (Option α)
  | .setLocally key value => fun k => if k = key then some (some value) else none
  | .delLocally key => fun k => if k = key then some none else none
  | .clearLocally => fun _ => some none
  | .resetLocally items => fun k => some (lastOf items k)
  | .updateLocally items => fun k => (lastOf items k).map some

def Upward.write : Upward κ α → Write κ (Option α)
  | .handshake => fun _ => none
  | .updateStateBroadcast method => method.write

theorem lookup_delLocally (d : Dict κ α) (key k : κ) :
    (delLocally d key).lookup k = if k = key then none else d.lookup k := by
  unfold delLocally
  split
  · split
    · rename_i he
      rw [he, AList.lookup_erase]
    · rename_i hne
      rw [AList.lookup_erase_ne hne]
  · rename_i hnot
    split
    · rename_i he
      rw [he]
      exact AList.lookup_eq_none.mpr hnot
    · rfl

theorem lookup_foldl_delLocally (keys : List κ) (d : Dict κ α) (k : κ) :
    (keys.foldl delLocally d).lookup k = if k ∈ keys then none else d.lookup k := by
  induction keys generalizing d with
  | nil => rw [if_neg List.not_mem_nil, List.foldl_nil]
  | cons key keys ih =>
    rw [List.foldl_cons, ih, lookup_delLocally]
    by_cases hk : k = key
    · simp [hk]
    · simp [hk]

theorem lookup_clearLocally (d : Dict κ α) (k : κ) : (clearLocally d).lookup k = none := by
  unfold clearLocally
  rw [lookup_foldl_delLocally]
  split
  · rfl
  · rename_i hnot
    exact AList.lookup_eq_none.mpr fun hin => hnot (AList.mem_keys.mpr hin)

theorem lookup_updateLocally (d : Dict κ α) (items : List (κ × α)) (k : κ) :
    (updateLocally d items).lookup k = (lastOf items k).or (d.lookup k) :=
  Dict.lookup_foldl_insert

/-- A method does what it writes. -/
theorem lookup_updateState (d : Dict κ α) (method : Method κ α) :
    (updateState d method).lookup = method.write.apply d.lookup := by
  funext k
  cases method with
  | setLocally key value =>
    show (d.insert key value).lookup k = (if k = key then some (some value) else none).getD _
    by_cases hk : k = key
    · rw [hk, AList.lookup_insert, if_pos rfl]
      rfl
    · rw [AList.lookup_insert_ne hk, if_neg hk]
      rfl
  | delLocally key =>
    show (delLocally d key).lookup k = (if k = key then some none else none).getD _
    rw [lookup_delLocally]
    by_cases hk : k = key
    · rw [if_pos hk, if_pos hk]
      rfl
    · rw [if_neg hk, if_neg hk]
      rfl
  | clearLocally => exact lookup_clearLocally d k
  | resetLocally items =>
    show (updateLocally (clearLocally d) items).lookup k = lastOf items k
    rw [lookup_updateLocally, lookup_clearLocally, Option.or_none]
  | updateLocally items =>
    show (updateLocally d items).lookup k = ((lastOf items k).map some).getD _
    rw [lookup_updateLocally]
    cases lastOf items k with
    | none => rfl
    | some value => rfl

/-- An action does to the state of its user what the method it broadcasts writes. -/
theorem lookup_perform {d d' : Dict κ α} {action : Action κ α} {method : Method κ α}
    (h : action.perform d = some (d', method)) : d'.lookup = method.write.apply d.lookup := by
  have hpopped : ∀ key, key ∈ d → (d.erase key).lookup =
      (Method.delLocally key : Method κ α).write.apply d.lookup := by
    intro key hin
    rw [← lookup_updateState]
    show _ = (delLocally d key).lookup
    unfold delLocally
    rw [if_pos hin]
  cases action with
  | setitem key value =>
    cases h
    exact lookup_updateState d (.setLocally key value)
  | delitem key =>
    cases h
    exact lookup_updateState d (.delLocally key)
  | clear =>
    cases h
    exact lookup_updateState d .clearLocally
  | update items =>
    cases h
    exact lookup_updateState d (.updateLocally items)
  | pop key | popitem key =>
    replace h : (if key ∈ d then some (d.erase key, Method.delLocally key) else none) =
        some (d', method) := h
    split at h
    · rename_i hin
      cases h
      exact hpopped key hin
    · cases h

/-- The items of the master are a copy of it. -/
theorem write_items (o : HashOrder κ) (d : Dict κ α) :
    (Method.resetLocally (Dict.items o d)).write = fun k => some (d.lookup k) := by
  funext k
  show some (lastOf (Dict.items o d) k) = some (d.lookup k)
  unfold lastOf
  cases hfind : (Dict.items o d).reverse.find? (fun p => p.1 = k) with
  | some p =>
    obtain ⟨key, value⟩ := p
    have hin := Dict.mem_items.mp (List.mem_reverse.mp (List.mem_of_find?_eq_some hfind))
    have hkey : key = k := by simpa using List.find?_some hfind
    rw [← hkey, hin]
    rfl
  | none =>
    cases hlookup : d.lookup k with
    | none => rfl
    | some value =>
      have hin : (k, value) ∈ (Dict.items o d).reverse :=
        List.mem_reverse.mpr (Dict.mem_items.mpr hlookup)
      have hnot := List.find?_eq_none.mp hfind _ hin
      simp at hnot

/-! ## Every slave follows the master -/

/-- A slave is a replica of the state `d`. -/
def Slave.Follows (d : Dict κ α) (slave : Slave κ α) : Prop :=
  Replica.Follows d.lookup slave.sharedState.lookup (slave.up.map Upward.write)
    (slave.down.map Method.write)

/-- What holds of each slave: it follows the master once it is appended, and a handshake was
received or is on its way. -/
structure Slave.Joined (d : Dict κ α) (slave : Slave κ α) : Prop where
  follows : slave.appended = true → slave.Follows d
  asked : slave.handshaken = true → slave.appended = true ∨ Upward.handshake ∈ slave.up

/-- All slaves are joined. -/
def AllJoined (h : Host ι κ α) : Prop :=
  ∀ id slave, h.slaves.lookup id = some slave → slave.Joined h.sharedState

variable {h t : Host ι κ α} {o : HashOrder κ}

theorem AllJoined.put (hall : AllJoined h) {id : ι} {slave : Slave κ α}
    (hslave : slave.Joined h.sharedState) : AllJoined (h.put id slave) := by
  intro id' slave' hlookup
  unfold Host.put at hlookup
  dsimp only at hlookup
  by_cases he : id' = id
  · rw [he, AList.lookup_insert] at hlookup
    cases hlookup
    exact hslave
  · rw [AList.lookup_insert_ne he] at hlookup
    exact hall id' slave' hlookup

/-- The master applied a method, as the slaves will. -/
theorem joined_broadcast {d' : Dict κ α} {slaves : Dict ι (Slave κ α)} {method : Method κ α}
    (hall : ∀ id slave, slaves.lookup id = some slave →
      (slave.appended = true → Replica.Follows d'.lookup slave.sharedState.lookup
        (slave.up.map Upward.write) (slave.down.map Method.write ++ [method.write])) ∧
      (slave.handshaken = true → slave.appended = true ∨ Upward.handshake ∈ slave.up)) :
    AllJoined (Host.broadcast ⟨d', slaves⟩ method) := by
  intro id slave hlookup
  unfold Host.broadcast at hlookup ⊢
  dsimp only at hlookup ⊢
  rw [Dict.lookup_map] at hlookup
  obtain ⟨before, hbefore, rfl⟩ := Option.map_eq_some_iff.mp hlookup
  obtain ⟨hfollows, hasked⟩ := hall id before hbefore
  split
  · rename_i happended
    refine ⟨fun _ => ?_, hasked⟩
    unfold Slave.Follows
    dsimp only
    rw [List.map_append]
    exact hfollows happended
  · rename_i hnot
    exact ⟨fun happended => absurd happended hnot, hasked⟩

/-! ## Events -/

theorem joined_receive (hall : AllJoined h) {id : ι} {slave : Slave κ α} {call : Upward κ α}
    (hslave : slave.Joined h.sharedState) {up : List (Upward κ α)} (hup : slave.up = call :: up) :
    AllJoined (h.receive o id { slave with up := up } call) := by
  cases call with
  | handshake =>
    refine hall.put ⟨fun _ => ?_, fun _ => .inl rfl⟩
    unfold Slave.Follows
    dsimp only
    rw [List.map_append, List.map_singleton, write_items]
    exact follows_copy _ _ _ _
  | updateStateBroadcast method =>
    have happly := lookup_updateState h.sharedState method
    refine joined_broadcast fun id' slave' hlookup => ?_
    rw [happly]
    by_cases he : id' = id
    · rw [he, AList.lookup_insert] at hlookup
      cases hlookup
      refine ⟨fun happended => ?_, fun hasked => ?_⟩
      · have hfollows := hslave.follows happended
        unfold Slave.Follows at hfollows
        rw [hup] at hfollows
        exact Follows.ordered hfollows
      · have hjoined := hslave.asked hasked
        rw [hup] at hjoined
        refine hjoined.imp (fun happended => happended) fun hin => ?_
        obtain hin | hin := List.mem_cons.mp hin
        · cases hin
        · exact hin
    · rw [AList.lookup_insert_ne he] at hlookup
      have hjoined := hall id' slave' hlookup
      exact ⟨fun happended => Follows.original (hjoined.follows happended) _, hjoined.asked⟩

theorem step_joined {e : Event ι κ α} (hall : AllJoined h) (hstep : step o h e = some t) :
    AllJoined t := by
  cases e with
  | connect id state =>
    dsimp only [step] at hstep
    split at hstep
    · cases hstep
    · cases hstep
      exact hall.put ⟨fun happended => absurd happended Bool.false_ne_true,
        fun hasked => absurd hasked Bool.false_ne_true⟩
  | handshake id =>
    obtain ⟨slave, hlookup, hstep⟩ := Option.bind_eq_some_iff.mp hstep
    split at hstep
    · cases hstep
    · cases hstep
      have hslave := hall id slave hlookup
      refine hall.put ⟨fun happended => ?_, fun _ => .inr (by simp)⟩
      intro k hup
      refine hslave.follows happended k fun w hw => hup w ?_
      dsimp only
      rw [List.map_append]
      exact List.mem_append_left _ hw
  | actOnMaster action =>
    obtain ⟨⟨state, method⟩, hperform, hstep⟩ := Option.bind_eq_some_iff.mp hstep
    cases hstep
    have happly := lookup_perform hperform
    refine joined_broadcast fun id slave hlookup => ?_
    rw [happly]
    have hjoined := hall id slave hlookup
    exact ⟨fun happended => Follows.original (hjoined.follows happended) _, hjoined.asked⟩
  | actOnSlave id action =>
    obtain ⟨slave, hlookup, hstep⟩ := Option.bind_eq_some_iff.mp hstep
    obtain ⟨⟨state, method⟩, hperform, hstep⟩ := Option.bind_eq_some_iff.mp hstep
    cases hstep
    have hslave := hall id slave hlookup
    refine hall.put ⟨fun happended => ?_, fun hasked => ?_⟩
    · unfold Slave.Follows
      dsimp only
      rw [lookup_perform hperform, List.map_append]
      exact Follows.own (hslave.follows happended) _
    · exact (hslave.asked hasked).imp (fun h => h) fun hin => List.mem_append_left _ hin
  | reachMaster id =>
    obtain ⟨slave, hlookup, hstep⟩ := Option.bind_eq_some_iff.mp hstep
    cases hup : slave.up with
    | nil =>
      rw [hup] at hstep
      cases hstep
    | cons call up =>
      rw [hup] at hstep
      cases hstep
      exact joined_receive hall (hall id slave hlookup) hup
  | reachSlave id =>
    obtain ⟨slave, hlookup, hstep⟩ := Option.bind_eq_some_iff.mp hstep
    cases hdown : slave.down with
    | nil =>
      rw [hdown] at hstep
      cases hstep
    | cons method down =>
      rw [hdown] at hstep
      cases hstep
      have hslave := hall id slave hlookup
      refine hall.put ⟨fun happended => ?_, hslave.asked⟩
      have hfollows := hslave.follows happended
      unfold Slave.Follows at hfollows ⊢
      rw [hdown] at hfollows
      dsimp only
      rw [lookup_updateState]
      exact Follows.delivered hfollows
  | disconnect id =>
    cases hstep
    intro id' slave hlookup
    dsimp only at hlookup
    by_cases he : id' = id
    · rw [he, AList.lookup_erase] at hlookup
      cases hlookup
    · rw [AList.lookup_erase_ne he] at hlookup
      exact hall id' slave hlookup

/-- No call is in flight. -/
def Host.Quiet (h : Host ι κ α) : Prop :=
  ∀ id slave, h.slaves.lookup id = some slave → slave.up = [] ∧ slave.down = []

/-- When no call is in flight, every slave that has called `handshake` holds what the master
holds. -/
theorem states_equal (o : HashOrder κ) {es : List (Event ι κ α)} {h : Host ι κ α}
    (hrun : Run (Defined (step o)) .new es h) (hquiet : h.Quiet) :
    ∀ id slave, h.slaves.lookup id = some slave → slave.handshaken = true →
      ∀ k, slave.sharedState.lookup k = h.sharedState.lookup k := by
  have hnew : AllJoined (Host.new : Host ι κ α) := fun id slave hlookup => by cases hlookup
  have hall : AllJoined h := Run.preserves (fun _ _ _ hs hstep => step_joined hs hstep) hrun hnew
  intro id slave hlookup hasked k
  obtain ⟨hup, hdown⟩ := hquiet id slave hlookup
  have hslave := hall id slave hlookup
  have happended : slave.appended = true := by
    refine (hslave.asked hasked).resolve_right ?_
    rw [hup]
    exact List.not_mem_nil
  have hfollows := hslave.follows happended
  unfold Slave.Follows at hfollows
  rw [hup, hdown] at hfollows
  exact congrFun (Follows.eq hfollows) k

/-- Two slaves join and set the same key, the second one of them reaches the master first. -/
def bothSet : List (Event Nat Nat Nat) :=
  [.connect 1 ∅, .connect 2 ∅, .handshake 1, .handshake 2, .reachMaster 1, .reachMaster 2,
    .actOnSlave 1 (.setitem 7 10), .actOnSlave 2 (.setitem 7 20), .reachMaster 2, .reachMaster 1,
    .reachSlave 1, .reachSlave 1, .reachSlave 1, .reachSlave 2, .reachSlave 2, .reachSlave 2]

theorem states_equal_both :
    ∃ (h : Host Nat Nat Nat) (slave : Slave Nat Nat), bothSet.foldlM (step .stored) .new = some h ∧
      h.slaves.lookup 2 = some slave ∧ h.sharedState.lookup 7 = some 10 ∧
      slave.sharedState.lookup 7 = h.sharedState.lookup 7 := by
  obtain ⟨h, hrun, hstate⟩ : ∃ h : Host Nat Nat Nat, bothSet.foldlM (step .stored) .new = some h ∧
      decide ((∀ e ∈ h.slaves.entries, e.2.up.isEmpty = true ∧ e.2.down.isEmpty = true) ∧
        (h.slaves.lookup 2).any (fun slave => slave.handshaken) = true ∧
        h.sharedState.lookup 7 = some 10) = true := by
    apply Option.map_eq_some_iff.mp
    decide +kernel
  obtain ⟨hempty, hsecond, hseven⟩ := of_decide_eq_true hstate
  obtain ⟨slave, hlookup, hasked⟩ := (Option.any_eq_true _ _).mp hsecond
  have hquiet : h.Quiet := by
    intro id slave' hin
    obtain ⟨hup, hdown⟩ := hempty _ (AList.mem_lookup_iff.mp hin)
    exact ⟨List.isEmpty_iff.mp hup, List.isEmpty_iff.mp hdown⟩
  exact ⟨h, slave, hrun, hlookup, hseven,
    states_equal .stored (run_defined hrun) hquiet 2 slave hlookup hasked 7⟩

end Feat.Agencies.SharedState
