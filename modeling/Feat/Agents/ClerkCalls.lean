import Feat.Agents.ClerkSettling

/- The calls of a clerk that are pending.

   A location has at most one, which is found by the name of the location (`Indexed`). What
   scheduling and cancelling do to the pending calls is one lemma each. -/
namespace Feat.Agents.Monitor
open Hash Transition

variable {c : Config}

/-- A quarantine-lift call for the location is pending. -/
def Clerk.Lifting (s : Clerk) (r : Ref) : Prop :=
  ∃ id delay, s.calls.lookup id = some (delay, .liftLocation r)

/-- An isolation-lift call is pending. -/
def Clerk.LiftingIsolation (s : Clerk) : Prop :=
  ∃ id delay, s.calls.lookup id = some (delay, .liftIsolation)

/-- Pending calls are found where the clerk keeps their identifiers. -/
structure Indexed (s : Clerk) : Prop where
  located : ∀ id delay r, s.calls.lookup id = some (delay, .liftLocation r) →
    s.locationCalls.lookup (s.heap r).name = some id
  location : ∀ name id delay call, s.locationCalls.lookup name = some id →
    s.calls.lookup id = some (delay, call) → ∃ r, call = .liftLocation r ∧ (s.heap r).name = name
  isolation : ∀ id delay, s.calls.lookup id = some (delay, .liftIsolation) →
    s.isolatedCall = some id
  isolated : ∀ id delay call, s.isolatedCall = some id →
    s.calls.lookup id = some (delay, call) → call = .liftIsolation
  pending : ∀ id, s.issued ≤ id → s.calls.lookup id = none
  known : ∀ name id, s.locationCalls.lookup name = some id → id < s.issued
  issued : ∀ id, s.isolatedCall = some id → id < s.issued

variable {s t : Clerk} {r r' : Ref}

/-- A location has one call at most. -/
theorem Indexed.unique (h : Indexed s) {id id' delay delay' : Nat}
    (hid : s.calls.lookup id = some (delay, .liftLocation r))
    (hid' : s.calls.lookup id' = some (delay', .liftLocation r)) : id = id' := by
  have hone := h.located id delay r hid
  rw [h.located id' delay' r hid'] at hone
  exact (Option.some.inj hone).symm

/-- What touches neither calls nor names. -/
theorem Indexed.same (h : Indexed s) (hname : ∀ r, (t.heap r).name = (s.heap r).name)
    (hcalls : t.calls = s.calls) (hlocation : t.locationCalls = s.locationCalls)
    (hisolated : t.isolatedCall = s.isolatedCall) (hissued : t.issued = s.issued) : Indexed t := by
  refine ⟨fun id delay r hid => ?_, fun name id delay call hname' hid => ?_, ?_, ?_, ?_, ?_, ?_⟩
  · rw [hcalls] at hid
    rw [hlocation, hname]
    exact h.located id delay r hid
  · rw [hlocation] at hname'
    rw [hcalls] at hid
    obtain ⟨r, rfl, hr⟩ := h.location name id delay call hname' hid
    exact ⟨r, rfl, (hname r).trans hr⟩
  · rw [hcalls, hisolated]
    exact h.isolation
  · rw [hcalls, hisolated]
    exact h.isolated
  · rw [hcalls, hissued]
    exact h.pending
  · rw [hlocation, hissued]
    exact h.known
  · rw [hisolated, hissued]
    exact h.issued

/-- Calls are taken away, with what is kept of them or without. -/
theorem Indexed.fewer (h : Indexed s) (hheap : t.heap = s.heap)
    (hcalls : ∀ id x, t.calls.lookup id = some x → s.calls.lookup id = some x)
    (hlocation : ∀ name id, t.locationCalls.lookup name = some id →
      s.locationCalls.lookup name = some id)
    (hisolated : ∀ id, t.isolatedCall = some id → s.isolatedCall = some id)
    (hissued : t.issued = s.issued)
    (hlocated : ∀ id delay r, t.calls.lookup id = some (delay, .liftLocation r) →
      t.locationCalls.lookup (s.heap r).name = some id)
    (hisolation : ∀ id delay, t.calls.lookup id = some (delay, .liftIsolation) →
      t.isolatedCall = some id) : Indexed t := by
  refine ⟨fun id delay r hid => ?_, fun name id delay call hname hid => ?_, hisolation,
    fun id delay call hiso hid => ?_, fun id hid => ?_, fun name id hname => ?_, fun id hid => ?_⟩
  · rw [hheap]
    exact hlocated id delay r hid
  · rw [hheap]
    exact h.location name id delay call (hlocation name id hname) (hcalls id _ hid)
  · exact h.isolated id delay call (hisolated id hiso) (hcalls id _ hid)
  · rw [hissued] at hid
    cases hlookup : t.calls.lookup id with
    | none => rfl
    | some x =>
      have hbefore := hcalls id x hlookup
      rw [h.pending id hid] at hbefore
      cases hbefore
  · rw [hissued]
    exact h.known name id (hlocation name id hname)
  · rw [hissued]
    exact h.issued id (hisolated id hid)

/-! ## Cancelling and scheduling -/

theorem lookup_locCancelCall (r : Ref) (s : Clerk) (id : Nat) :
    (locCancelCall r s).calls.lookup id =
      if s.locationCalls.lookup (s.heap r).name = some id then none else s.calls.lookup id := by
  unfold locCancelCall cancelDelayedCall
  dsimp only
  cases hindex : s.locationCalls.lookup (s.heap r).name with
  | none => simp
  | some other =>
    by_cases hid : other = id
    · subst hid
      simp
    · simp [hid, AList.lookup_erase_ne (Ne.symm hid)]

theorem locationCalls_locCancelCall (r : Ref) (s : Clerk) :
    (locCancelCall r s).locationCalls = s.locationCalls.erase (s.heap r).name := by
  unfold locCancelCall cancelDelayedCall
  dsimp only
  split <;> rfl

theorem indexed_locCancelCall (h : Indexed s) (r : Ref) : Indexed (locCancelCall r s) := by
  have hsub : ∀ id x, (locCancelCall r s).calls.lookup id = some x →
      s.calls.lookup id = some x := by
    intro id x hid
    rw [lookup_locCancelCall] at hid
    split at hid
    · cases hid
    · exact hid
  have hrest : (locCancelCall r s).isolatedCall = s.isolatedCall ∧
      (locCancelCall r s).issued = s.issued := by
    unfold locCancelCall cancelDelayedCall
    dsimp only
    split
    · exact ⟨rfl, rfl⟩
    · exact ⟨rfl, rfl⟩
  refine h.fewer (rescheduled_locCancelCall r s).heap hsub (fun name id hname => ?_)
    (fun id hid => by rwa [hrest.1] at hid) hrest.2 (fun id delay r' hid => ?_) fun id delay hid => ?_
  · rw [locationCalls_locCancelCall] at hname
    by_cases hr : name = (s.heap r).name
    · rw [hr, AList.lookup_erase] at hname
      cases hname
    · rwa [AList.lookup_erase_ne hr] at hname
  · rw [lookup_locCancelCall] at hid
    split at hid
    · cases hid
    · rename_i hnot
      have hindex := h.located id delay r' hid
      rw [locationCalls_locCancelCall, AList.lookup_erase_ne, hindex]
      intro hname
      rw [hname] at hindex
      exact hnot hindex
  · rw [hrest.1]
    exact h.isolation id delay (hsub id _ hid)

/-- Cancelling takes the call of the location that goes by the name. -/
theorem lifting_locCancelCall_iff (h : Indexed s) :
    (locCancelCall r s).Lifting r' ↔ s.Lifting r' ∧ (s.heap r').name ≠ (s.heap r).name := by
  refine ⟨fun hl => ?_, fun hl => ?_⟩
  · obtain ⟨id, delay, hid⟩ := hl
    rw [lookup_locCancelCall] at hid
    split at hid
    · cases hid
    · rename_i hnot
      refine ⟨⟨id, delay, hid⟩, fun hname => hnot ?_⟩
      rw [← hname]
      exact h.located id delay r' hid
  · obtain ⟨⟨id, delay, hid⟩, hname⟩ := hl
    refine ⟨id, delay, ?_⟩
    rw [lookup_locCancelCall, if_neg]
    · exact hid
    · intro hindex
      obtain ⟨r'', hcall, hr''⟩ := h.location _ id delay _ hindex hid
      cases hcall
      exact hname hr''

theorem liftingIsolation_locCancelCall_iff (h : Indexed s) :
    (locCancelCall r s).LiftingIsolation ↔ s.LiftingIsolation := by
  refine ⟨fun hl => ?_, fun hl => ?_⟩
  · obtain ⟨id, delay, hid⟩ := hl
    rw [lookup_locCancelCall] at hid
    split at hid
    · cases hid
    · exact ⟨id, delay, hid⟩
  · obtain ⟨id, delay, hid⟩ := hl
    refine ⟨id, delay, ?_⟩
    rw [lookup_locCancelCall, if_neg]
    · exact hid
    · intro hindex
      obtain ⟨r'', hcall, -⟩ := h.location _ id delay _ hindex hid
      cases hcall

theorem lookup_insert_call (s : Clerk) (delay : Nat) (call : Call) (id : Nat) :
    (s.calls.insert s.issued (delay, call)).lookup id =
      if id = s.issued then some (delay, call) else s.calls.lookup id := by
  by_cases hid : id = s.issued
  · rw [if_pos hid, hid, AList.lookup_insert]
  · rw [if_neg hid, AList.lookup_insert_ne hid]

/-- A call is made for a location that has none. -/
theorem indexed_callLocation (h : Indexed s) (delay : Nat)
    (hfree : s.locationCalls.lookup (s.heap r).name = none) :
    Indexed { s with
      calls := s.calls.insert s.issued (delay, .liftLocation r)
      issued := s.issued + 1
      locationCalls := s.locationCalls.insert (s.heap r).name s.issued } := by
  refine ⟨fun id d r' hid => ?_, fun name id d call hname hid => ?_, fun id d hid => ?_,
    fun id d call hiso hid => ?_, fun id hid => ?_, fun name id hname => ?_, fun id hid => ?_⟩
  · dsimp only at hid ⊢
    rw [lookup_insert_call] at hid
    split at hid
    · rename_i hnew
      cases hid
      rw [hnew, AList.lookup_insert]
    · have hindex := h.located id d r' hid
      rw [AList.lookup_insert_ne, hindex]
      intro hname
      rw [hname, hfree] at hindex
      cases hindex
  · dsimp only at hname hid ⊢
    rw [lookup_insert_call] at hid
    by_cases hr : name = (s.heap r).name
    · rw [hr, AList.lookup_insert] at hname
      cases hname
      rw [if_pos rfl] at hid
      cases hid
      exact ⟨r, rfl, hr.symm⟩
    · rw [AList.lookup_insert_ne hr] at hname
      rw [if_neg (Nat.ne_of_lt (h.known name id hname))] at hid
      exact h.location name id d call hname hid
  · dsimp only at hid ⊢
    rw [lookup_insert_call] at hid
    split at hid
    · cases hid
    · exact h.isolation id d hid
  · dsimp only at hiso hid
    rw [lookup_insert_call, if_neg (Nat.ne_of_lt (h.issued id hiso))] at hid
    exact h.isolated id d call hiso hid
  · dsimp only at hid ⊢
    rw [lookup_insert_call, if_neg (by omega)]
    exact h.pending id (by omega)
  · dsimp only at hname ⊢
    by_cases hr : name = (s.heap r).name
    · rw [hr, AList.lookup_insert] at hname
      cases hname
      exact Nat.lt_succ_self s.issued
    · rw [AList.lookup_insert_ne hr] at hname
      exact Nat.lt_succ_of_lt (h.known name id hname)
  · exact Nat.lt_succ_of_lt (h.issued id hid)

/-- A call for a location takes the place of the one that its name had. -/
theorem locScheduleCall_eq (delay : Nat) (r : Ref) (s : Clerk) :
    locScheduleCall delay r s =
      let u := locCancelCall r s
      { u with
        calls := u.calls.insert u.issued (delay, .liftLocation r)
        issued := u.issued + 1
        locationCalls := u.locationCalls.insert (u.heap r).name u.issued } := rfl

theorem indexed_locScheduleCall (h : Indexed s) (delay : Nat) (r : Ref) :
    Indexed (locScheduleCall delay r s) := by
  rw [locScheduleCall_eq]
  refine indexed_callLocation (indexed_locCancelCall h r) delay ?_
  rw [(rescheduled_locCancelCall r s).heap, locationCalls_locCancelCall, AList.lookup_erase]

theorem lifting_locScheduleCall_iff (h : Indexed s) (delay : Nat) :
    (locScheduleCall delay r s).Lifting r' ↔
      r' = r ∨ s.Lifting r' ∧ (s.heap r').name ≠ (s.heap r).name := by
  rw [← lifting_locCancelCall_iff h, locScheduleCall_eq]
  have hcancelled := indexed_locCancelCall h r
  generalize locCancelCall r s = u at hcancelled ⊢
  refine ⟨fun hl => ?_, fun hl => ?_⟩
  · obtain ⟨id, d, hid⟩ := hl
    dsimp only at hid
    rw [lookup_insert_call] at hid
    split at hid
    · cases hid
      exact .inl rfl
    · exact .inr ⟨id, d, hid⟩
  · obtain rfl | ⟨id, d, hid⟩ := hl
    · exact ⟨u.issued, delay, AList.lookup_insert _⟩
    · refine ⟨id, d, ?_⟩
      dsimp only
      rw [lookup_insert_call, if_neg]
      · exact hid
      · intro hnew
        rw [hcancelled.pending id (le_of_eq hnew.symm)] at hid
        cases hid

theorem liftingIsolation_locScheduleCall_iff (h : Indexed s) (delay : Nat) :
    (locScheduleCall delay r s).LiftingIsolation ↔ s.LiftingIsolation := by
  rw [← liftingIsolation_locCancelCall_iff (r := r) h, locScheduleCall_eq]
  have hcancelled := indexed_locCancelCall h r
  generalize locCancelCall r s = u at hcancelled ⊢
  refine ⟨fun hl => ?_, fun hl => ?_⟩
  · obtain ⟨id, d, hid⟩ := hl
    dsimp only at hid
    rw [lookup_insert_call] at hid
    split at hid
    · cases hid
    · exact ⟨id, d, hid⟩
  · obtain ⟨id, d, hid⟩ := hl
    refine ⟨id, d, ?_⟩
    dsimp only
    rw [lookup_insert_call, if_neg]
    · exact hid
    · intro hnew
      rw [hcancelled.pending id (le_of_eq hnew.symm)] at hid
      cases hid

/-! ## Isolation -/

theorem lookup_isoCancelCall (s : Clerk) (id : Nat) :
    (isoCancelCall s).calls.lookup id =
      if s.isolatedCall = some id then none else s.calls.lookup id := by
  unfold isoCancelCall cancelDelayedCall
  cases hiso : s.isolatedCall with
  | none => simp
  | some other =>
    by_cases hid : other = id
    · subst hid
      simp
    · simp [hid, AList.lookup_erase_ne (Ne.symm hid)]

theorem isolatedCall_isoCancelCall (s : Clerk) : (isoCancelCall s).isolatedCall = none := by
  unfold isoCancelCall
  split
  · rfl
  · assumption

theorem indexed_isoCancelCall (h : Indexed s) : Indexed (isoCancelCall s) := by
  have hsub : ∀ id x, (isoCancelCall s).calls.lookup id = some x →
      s.calls.lookup id = some x := by
    intro id x hid
    rw [lookup_isoCancelCall] at hid
    split at hid
    · cases hid
    · exact hid
  have hrest : (isoCancelCall s).locationCalls = s.locationCalls ∧
      (isoCancelCall s).issued = s.issued := by
    unfold isoCancelCall cancelDelayedCall
    split
    · exact ⟨rfl, rfl⟩
    · exact ⟨rfl, rfl⟩
  refine h.fewer (rescheduled_isoCancelCall s).heap hsub (fun name id hname => ?_)
    (fun id hid => ?_) hrest.2 (fun id delay r hid => ?_) fun id delay hid => ?_
  · rwa [hrest.1] at hname
  · rw [isolatedCall_isoCancelCall] at hid
    cases hid
  · rw [hrest.1]
    exact h.located id delay r (hsub id _ hid)
  · -- the call would be the one that was cancelled
    have hindex := h.isolation id delay (hsub id _ hid)
    rw [lookup_isoCancelCall, if_pos hindex] at hid
    cases hid

theorem not_liftingIsolation_isoCancelCall (h : Indexed s) :
    ¬ (isoCancelCall s).LiftingIsolation := by
  intro hl
  obtain ⟨id, delay, hid⟩ := hl
  have hindex := (indexed_isoCancelCall h).isolation id delay hid
  rw [isolatedCall_isoCancelCall] at hindex
  cases hindex

theorem lifting_isoCancelCall_iff (h : Indexed s) :
    (isoCancelCall s).Lifting r ↔ s.Lifting r := by
  refine ⟨fun hl => ?_, fun hl => ?_⟩
  · obtain ⟨id, delay, hid⟩ := hl
    rw [lookup_isoCancelCall] at hid
    split at hid
    · cases hid
    · exact ⟨id, delay, hid⟩
  · obtain ⟨id, delay, hid⟩ := hl
    refine ⟨id, delay, ?_⟩
    rw [lookup_isoCancelCall, if_neg]
    · exact hid
    · intro hindex
      cases h.isolated id delay _ hindex hid

theorem isoScheduleCall_eq (delay : Nat) (s : Clerk) :
    isoScheduleCall delay s =
      let u := isoCancelCall s
      { u with
        calls := u.calls.insert u.issued (delay, .liftIsolation)
        issued := u.issued + 1
        isolatedCall := some u.issued } := rfl

theorem indexed_isoScheduleCall (h : Indexed s) (delay : Nat) :
    Indexed (isoScheduleCall delay s) := by
  rw [isoScheduleCall_eq]
  have hcancelled := indexed_isoCancelCall h
  have hnone := not_liftingIsolation_isoCancelCall h
  generalize isoCancelCall s = u at hcancelled hnone ⊢
  refine ⟨fun id d r hid => ?_, fun name id d call hname hid => ?_, fun id d hid => ?_,
    fun id d call hiso hid => ?_, fun id hid => ?_, fun name id hname => ?_, fun id hid => ?_⟩
  · dsimp only at hid ⊢
    rw [lookup_insert_call] at hid
    split at hid
    · cases hid
    · exact hcancelled.located id d r hid
  · dsimp only at hname hid ⊢
    rw [lookup_insert_call, if_neg (Nat.ne_of_lt (hcancelled.known name id hname))] at hid
    exact hcancelled.location name id d call hname hid
  · dsimp only at hid ⊢
    rw [lookup_insert_call] at hid
    split at hid
    · rename_i hnew
      rw [hnew]
    · exact absurd ⟨id, d, hid⟩ hnone
  · cases hiso
    dsimp only at hid
    rw [lookup_insert_call, if_pos rfl] at hid
    cases hid
    rfl
  · dsimp only at hid ⊢
    rw [lookup_insert_call, if_neg (by omega)]
    exact hcancelled.pending id (by omega)
  · exact Nat.lt_succ_of_lt (hcancelled.known name id hname)
  · cases hid
    exact Nat.lt_succ_self u.issued

theorem liftingIsolation_isoScheduleCall (delay : Nat) (s : Clerk) :
    (isoScheduleCall delay s).LiftingIsolation :=
  ⟨(isoCancelCall s).issued, delay, AList.lookup_insert _⟩

theorem lifting_isoScheduleCall_iff (h : Indexed s) (delay : Nat) :
    (isoScheduleCall delay s).Lifting r ↔ s.Lifting r := by
  rw [← lifting_isoCancelCall_iff h, isoScheduleCall_eq]
  have hcancelled := indexed_isoCancelCall h
  generalize isoCancelCall s = u at hcancelled ⊢
  refine ⟨fun hl => ?_, fun hl => ?_⟩
  · obtain ⟨id, d, hid⟩ := hl
    dsimp only at hid
    rw [lookup_insert_call] at hid
    split at hid
    · cases hid
    · exact ⟨id, d, hid⟩
  · obtain ⟨id, d, hid⟩ := hl
    refine ⟨id, d, ?_⟩
    dsimp only
    rw [lookup_insert_call, if_neg]
    · exact hid
    · intro hnew
      rw [hcancelled.pending id (le_of_eq hnew.symm)] at hid
      cases hid

/-! ## Calls that fire -/

/-- A call that fires is not pending any more. -/
theorem indexed_fired (h : Indexed s) (id : Nat) : Indexed { s with calls := s.calls.erase id } := by
  have hsub : ∀ id' x, (s.calls.erase id).lookup id' = some x → s.calls.lookup id' = some x := by
    intro id' x hid
    by_cases he : id' = id
    · rw [he, AList.lookup_erase] at hid
      cases hid
    · rwa [AList.lookup_erase_ne he] at hid
  exact h.fewer rfl hsub (fun _ _ hn => hn) (fun _ hi => hi) rfl
    (fun id' d r hid => h.located id' d r (hsub id' _ hid))
    fun id' d hid => h.isolation id' d (hsub id' _ hid)

theorem lifting_fired_iff (h : Indexed s) {id delay : Nat}
    (hid : s.calls.lookup id = some (delay, .liftLocation r)) (r' : Ref) :
    Clerk.Lifting { s with calls := s.calls.erase id } r' ↔ s.Lifting r' ∧ r' ≠ r := by
  refine ⟨fun hl => ?_, fun hl => ?_⟩
  · obtain ⟨id', d, hid'⟩ := hl
    have hne : id' ≠ id := by
      intro he
      rw [he, AList.lookup_erase] at hid'
      cases hid'
    rw [AList.lookup_erase_ne hne] at hid'
    refine ⟨⟨id', d, hid'⟩, fun hr => hne ?_⟩
    rw [hr] at hid'
    exact h.unique hid' hid
  · obtain ⟨⟨id', d, hid'⟩, hr⟩ := hl
    refine ⟨id', d, ?_⟩
    rw [AList.lookup_erase_ne]
    · exact hid'
    · intro he
      rw [he, hid] at hid'
      cases hid'
      exact hr rfl

end Feat.Agents.Monitor
