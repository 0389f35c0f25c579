import Feat.Agents.ResourceMoves

/- The ids of allocations and changes.

   Ids are handed out in order, each once (`Issued`), from a counter that starts at
   one with the agent. The descriptor outlives the agent: what was confirmed before a
   restart has ids from the same counter, and a new allocation is stored over an old
   one with its id (`restart_overwrites`).

   Where the id of each entry that is created is not the id of a confirmed allocation
   (`FreshId`), every new allocation is stored under an id of its own, and no id that
   was handed out denotes another allocation (`ids_safe`). -/
namespace Feat.Agents
open Hash Expiring Feat.Common Feat.Agencies Transition

/-! ## Ids handed out -/

/-- The id of the allocation that the update stores. -/
def Update.appends : Update → Option String
  | .append a => some a.id
  | _ => none

/-- The ids of the allocations in flight. -/
def appending (updates : List (Nat × Update)) : List String :=
  updates.filterMap fun u => u.2.appends

/-- Ids are handed out in order; a pending entry has one of them, which is its key; an allocation in
flight too, and no two of these are the same; and an entry that was confirmed is not pending any
more. -/
structure Issued (orders : Orders) (desc : Descriptor) (s : Resources) : Prop where
  updating : Resources.Updating orders desc s
  counter : s.idAutoincrement = s.issued.length + 1
  ids : (s.issued.map fun p => p.1.id) =
    (List.range s.issued.length).map fun n => toString (n + 1)
  pending : ∀ id item, s.pending.lookup id = some item → ∃ exp entry,
    item = ⟨some exp, some entry⟩ ∧ entry.id = id ∧ entry ∈ s.issued.map Prod.fst
  flight : ∀ no a, (no, .append a) ∈ s.inFlight → .allocation a ∈ s.issued.map Prod.fst
  apart : ∀ id ∈ appending s.inFlight, s.pending.lookup id = none
  distinct : (appending s.inFlight).Nodup
  confirms : ∀ c ∈ s.confirms, c.entry.id = c.id ∧ c.entry ∈ s.issued.map Prod.fst ∧
    s.pending.lookup c.id = none ∧ s.agent.calls[c.no]? = some c.entry.update

section Ids
variable {orders : Orders} {desc : Descriptor} {s t : Resources}

theorem toString_injective {m n : ℕ} (h : toString m = toString n) : m = n := by
  have hdigits : Nat.toDigits 10 m = Nat.toDigits 10 n := by
    simpa [Nat.toList_repr] using congrArg String.toList h
  calc m = Nat.ofDigitChars 10 (Nat.toDigits 10 m) 0 := (Nat.ofDigitChars_ten_toDigits).symm
    _ = n := by rw [hdigits, Nat.ofDigitChars_ten_toDigits]

/-- No id is handed out twice. -/
theorem Issued.nodup (h : Issued orders desc s) : (s.issued.map fun p => p.1.id).Nodup := by
  rw [h.ids]
  refine List.Nodup.map (fun m n heq => ?_) List.nodup_range
  have hsucc := toString_injective heq
  omega

/-- The next id was not handed out yet. -/
theorem Issued.nextId_fresh (h : Issued orders desc s) {entry : Entry}
    (hentry : entry ∈ s.issued.map Prod.fst) : entry.id ≠ s.nextId := by
  intro heq
  have hid : entry.id ∈ s.issued.map fun p => p.1.id := by
    obtain ⟨p, hp, rfl⟩ := List.mem_map.mp hentry
    exact List.mem_map_of_mem hp
  rw [h.ids, heq] at hid
  obtain ⟨n, hn, hid⟩ := List.mem_map.mp hid
  have hsucc := toString_injective hid
  have hlt := List.mem_range.mp hn
  rw [h.counter] at hsucc
  omega

/-- Entries with the same id are the same. -/
theorem Issued.unique (h : Issued orders desc s) {entry entry' : Entry}
    (hentry : entry ∈ s.issued.map Prod.fst) (hentry' : entry' ∈ s.issued.map Prod.fst)
    (hid : entry.id = entry'.id) : entry = entry' := by
  have hnodup : ((s.issued.map Prod.fst).map Entry.id).Nodup := by
    rw [List.map_map]
    exact h.nodup
  exact List.inj_on_of_nodup_map hnodup hentry hentry' hid

theorem Issued.pending_fresh (h : Issued orders desc s) : s.pending.lookup s.nextId = none := by
  cases hlookup : s.pending.lookup s.nextId with
  | none => rfl
  | some item =>
    obtain ⟨exp, entry, _, hid, hentry⟩ := h.pending s.nextId item hlookup
    exact (h.nextId_fresh hentry hid).elim

theorem mem_appending {updates : List (Nat × Update)} {id : String} :
    id ∈ appending updates ↔ ∃ no a, (no, .append a) ∈ updates ∧ a.id = id := by
  unfold appending
  rw [List.mem_filterMap]
  refine ⟨fun h => ?_, fun h => ?_⟩
  · obtain ⟨⟨no, update⟩, hu, hid⟩ := h
    cases update with
    | append a =>
      cases hid
      exact ⟨no, a, hu, rfl⟩
    | applyModification c => cases hid
    | remove a => cases hid
  · obtain ⟨no, a, hu, rfl⟩ := h
    exact ⟨(no, .append a), hu, rfl⟩

theorem Issued.appending_fresh (h : Issued orders desc s) : s.nextId ∉ appending s.inFlight := by
  intro hin
  obtain ⟨no, a, hu, hid⟩ := mem_appending.mp hin
  exact h.nextId_fresh (h.flight no a hu) hid

/-- What was confirmed has an id that was handed out, so not the next one. -/
theorem Issued.confirm_ne (h : Issued orders desc s) {c : Confirm} (hc : c ∈ s.confirms) :
    c.id ≠ s.nextId := by
  obtain ⟨hid, hentry, _⟩ := h.confirms c hc
  rw [← hid]
  exact h.nextId_fresh hentry

/-- What handing out an id keeps. -/
theorem issue_ids (h : Issued orders desc s) {entry : Entry} (hentry : entry.id = s.nextId)
    (params : Params) :
    (s.issue entry params).idAutoincrement = (s.issue entry params).issued.length + 1 ∧
      ((s.issue entry params).issued.map fun p => p.1.id) =
        (List.range (s.issue entry params).issued.length).map fun n => toString (n + 1) := by
  have hcounter := h.counter
  refine ⟨?_, ?_⟩
  · show s.idAutoincrement + 1 = (s.issued ++ [(entry, params)]).length + 1
    simp only [List.length_append, List.length_singleton]
    omega
  · show ((s.issued ++ [(entry, params)]).map fun p => p.1.id) =
      (List.range (s.issued ++ [(entry, params)]).length).map _
    rw [List.map_append, h.ids, List.length_append, List.length_singleton, List.range_succ,
      List.map_append, List.map_singleton, List.map_singleton, hentry, Resources.nextId, hcounter]

/-- An update is sent that stores an allocation of its own, or none. -/
theorem send_issued (h : Issued orders desc s) {update : Update}
    (hentry : ∀ a, update = .append a → .allocation a ∈ s.issued.map Prod.fst)
    (hpending : ∀ id, update.appends = some id → s.pending.lookup id = none)
    (hflight : ∀ id, update.appends = some id → id ∉ appending s.inFlight) :
    Issued orders desc (s.send update).1 := by
  obtain ⟨hinFlight, _, _, _, hcalls, hupdating⟩ := Resources.send_spec h.updating update
  have happending : appending (s.send update).1.inFlight =
      appending s.inFlight ++ update.appends.toList := by
    rw [hinFlight]
    unfold appending
    rw [List.filterMap_append]
    cases hid : update.appends <;> simp [hid]
  refine ⟨hupdating, h.counter, h.ids, h.pending, ?_, ?_, ?_, ?_⟩
  · intro no a hu
    rw [hinFlight] at hu
    rcases List.mem_append.mp hu with hu | hu
    · exact h.flight no a hu
    · cases List.mem_singleton.mp hu
      exact hentry a rfl
  · intro id hid
    rw [happending] at hid
    rcases List.mem_append.mp hid with hid | hid
    · exact h.apart id hid
    · exact hpending id (by simpa using hid)
  · rw [happending, List.nodup_append]
    refine ⟨h.distinct, by cases update.appends <;> simp, fun id hid id' hid' heq => ?_⟩
    exact hflight id' (by simpa using hid') (heq ▸ hid)
  · intro c hc
    obtain ⟨hid, hentry, hnot, hcall⟩ := h.confirms c hc
    refine ⟨hid, hentry, hnot, ?_⟩
    rw [hcalls]
    have hlt : c.no < s.agent.calls.length := (List.getElem?_eq_some_iff.mp hcall).1
    rw [List.getElem?_append_left hlt]
    exact hcall

/-- Every event keeps it. -/
theorem step_issued {event : Resources.Event} (h : Issued orders desc s)
    (hstep : s.step orders event = some t) : Issued orders desc t := by
  cases Resources.step_cases hstep with
  | define => exact ⟨h.updating, h.counter, h.ids, h.pending, h.flight, h.apart, h.distinct, h.confirms⟩
  | @quiet now modifications _ hlive =>
    have hshrink : ∀ id item, (Resources.pending { s with now, modifications }).lookup id = some item →
        s.pending.lookup id = some item := by
      intro id item hitem
      rw [Resources.lookup_pending] at hitem ⊢
      exact hlive id item hitem
    have hnone : ∀ id, s.pending.lookup id = none →
        (Resources.pending { s with now, modifications }).lookup id = none := by
      intro id hid
      cases hitem : (Resources.pending { s with now, modifications }).lookup id with
      | none => rfl
      | some item =>
        rw [hshrink id item hitem] at hid
        cases hid
    refine ⟨h.updating, h.counter, h.ids, fun id item hitem => h.pending id item
      (hshrink id item hitem), h.flight, fun id hid => hnone id (h.apart id hid), h.distinct, ?_⟩
    intro c hc
    obtain ⟨hid, hentry, hnot, hcall⟩ := h.confirms c hc
    exact ⟨hid, hentry, hnone c.id hnot, hcall⟩
  | @pend entry params modifications _ _ hgenerated hlive =>
    have hid : entry.id = s.nextId := by cases hgenerated <;> rfl
    obtain ⟨hcounter, hids⟩ := issue_ids h hid params
    have hin : ∀ entry', entry' ∈ s.issued.map Prod.fst →
        entry' ∈ (s.issued ++ [(entry, params)]).map Prod.fst := by
      intro entry' hentry'
      rw [List.map_append]
      exact List.mem_append_left _ hentry'
    have hlookup : ∀ id, (Resources.pending { s.issue entry params with modifications }).lookup id =
        if id = s.nextId then some ⟨some (s.now + allocationTimeout), some entry⟩
        else s.pending.lookup id := by
      intro id
      rw [Resources.lookup_pending, Resources.lookup_pending, ← hid]
      exact hlive id
    refine ⟨h.updating, hcounter, hids, ?_, fun no a hu => hin _ (h.flight no a hu), ?_,
      h.distinct, ?_⟩
    · intro id item hitem
      rw [hlookup] at hitem
      split at hitem
      · rename_i heq
        cases hitem
        exact ⟨_, entry, rfl, hid.trans heq.symm, by simp [Resources.issue]⟩
      · obtain ⟨exp, entry', hitem, hid', hentry'⟩ := h.pending id item hitem
        exact ⟨exp, entry', hitem, hid', hin _ hentry'⟩
    · intro id hid'
      have hne : id ≠ s.nextId := fun heq => by
        rw [heq] at hid'
        exact h.appending_fresh hid'
      rw [hlookup, if_neg hne]
      exact h.apart id hid'
    · intro c hc
      obtain ⟨hcid, hentry, hnot, hcall⟩ := h.confirms c hc
      refine ⟨hcid, hin _ hentry, ?_, hcall⟩
      rw [hlookup, if_neg (h.confirm_ne hc)]
      exact hnot
  | @send a params _ hgenerated =>
    have hid : (Entry.allocation a).id = s.nextId := by cases hgenerated <;> rfl
    obtain ⟨hcounter, hids⟩ := issue_ids h hid params
    have hin : ∀ entry', entry' ∈ s.issued.map Prod.fst →
        entry' ∈ (s.issued ++ [(Entry.allocation a, params)]).map Prod.fst := by
      intro entry' hentry'
      rw [List.map_append]
      exact List.mem_append_left _ hentry'
    have hissued : Issued orders desc (s.issue (.allocation a) params) := by
      refine ⟨h.updating, hcounter, hids, ?_, fun no a hu => hin _ (h.flight no a hu), h.apart,
        h.distinct, ?_⟩
      · intro id item hitem
        obtain ⟨exp, entry', hitem, hid', hentry'⟩ := h.pending id item hitem
        exact ⟨exp, entry', hitem, hid', hin _ hentry'⟩
      · intro c hc
        obtain ⟨hcid, hentry, hnot, hcall⟩ := h.confirms c hc
        exact ⟨hcid, hin _ hentry, hnot, hcall⟩
    refine send_issued hissued ?_ ?_ ?_
    · intro a' heq
      cases heq
      simp [Resources.issue]
    · intro id heq
      cases heq
      rw [show a.id = s.nextId from hid]
      exact h.pending_fresh
    · intro id heq
      cases heq
      rw [show a.id = s.nextId from hid]
      exact h.appending_fresh
  | @take id exp entry modifications confirms _ hitem hlive hconfirms =>
    have hlookup : ∀ id', (Resources.pending { s with modifications, confirms }).lookup id' =
        if id' = id then none else s.pending.lookup id' := by
      intro id'
      rw [Resources.lookup_pending, Resources.lookup_pending]
      exact hlive id'
    have hbefore : s.pending.lookup id = some ⟨exp, some entry⟩ :=
      (Resources.lookup_pending s id).trans hitem
    have hentry : entry.id = id ∧ entry ∈ s.issued.map Prod.fst := by
      obtain ⟨exp', entry', heq, hid', hentry'⟩ := h.pending id _ hbefore
      cases heq
      exact ⟨hid', hentry'⟩
    have hcall : (s.agent.calls ++ [entry.update])[s.agent.calls.length]? = some entry.update := by
      simp
    -- everything but the new confirm, the call of which is made last
    have htaken : Issued orders desc { s with modifications, confirms := s.confirms } := by
      refine ⟨h.updating, h.counter, h.ids, ?_, h.flight, ?_, h.distinct, ?_⟩
      · intro id' item hitem'
        have hitem' := (hlookup id').symm.trans hitem'
        split at hitem'
        · cases hitem'
        · exact h.pending id' item hitem'
      · intro id' hid'
        refine (hlookup id').trans ?_
        split
        · rfl
        · exact h.apart id' hid'
      · intro c hc
        obtain ⟨hcid, hcentry, hnot, hccall⟩ := h.confirms c hc
        refine ⟨hcid, hcentry, (hlookup c.id).trans ?_, hccall⟩
        split
        · rfl
        · exact hnot
    have happends : ∀ id', entry.update.appends = some id' → id' = id := by
      intro id' hid'
      cases entry with
      | allocation a =>
        cases hid'
        exact hentry.1
      | change c => cases hid'
    have hnone : (Resources.pending { s with modifications, confirms }).lookup id = none := by
      rw [hlookup, if_pos rfl]
    have hsent : Issued orders desc
        (({ s with modifications, confirms := s.confirms } : Resources).send entry.update).1 := by
      refine send_issued htaken ?_ ?_ ?_
      · intro a heq
        cases entry with
        | allocation a' =>
          cases heq
          exact hentry.2
        | change c => cases heq
      · intro id' hid'
        rw [happends id' hid']
        exact hnone
      · intro id' hid' hin
        have hnot := h.apart id' hin
        rw [happends id' hid', hbefore] at hnot
        cases hnot
    refine ⟨hsent.updating, hsent.counter, hsent.ids, hsent.pending, hsent.flight, hsent.apart,
      hsent.distinct, fun c hc => ?_⟩
    have hc : c ∈ s.confirms ++ [⟨s.agent.calls.length, id, exp, entry⟩] := hconfirms ▸ hc
    rcases List.mem_append.mp hc with hold | hnew
    · exact hsent.confirms c hold
    · cases List.mem_singleton.mp hnew
      obtain ⟨_, _, _, _, hcalls, _⟩ := Resources.send_spec htaken.updating entry.update
      exact ⟨hentry.1, hentry.2, hnone, hcalls ▸ hcall⟩
  | @remove id a modifications _ _ hlive =>
    have hlookup : ∀ id, (Resources.pending { s with modifications }).lookup id =
        s.pending.lookup id := by
      intro id
      rw [Resources.lookup_pending, Resources.lookup_pending]
      exact hlive id
    have hquiet : Issued orders desc { s with modifications } := by
      refine ⟨h.updating, h.counter, h.ids, ?_, h.flight, ?_, h.distinct, ?_⟩
      · intro id item hitem
        exact h.pending id item ((hlookup id).symm.trans hitem)
      · intro id hid
        exact (hlookup id).trans (h.apart id hid)
      · intro c hc
        obtain ⟨hcid, hentry, hnot, hcall⟩ := h.confirms c hc
        exact ⟨hcid, hentry, (hlookup c.id).trans hnot, hcall⟩
    refine send_issued hquiet ?_ ?_ ?_
    · intro a' heq
      cases heq
    · intro id heq
      cases heq
    · intro id heq
      cases heq
  | @agent agentEvent agent hevent hagent =>
    have hupdating : Resources.Updating orders desc { s with agent } :=
      AgencyAgent.step_updates h.updating hagent
    -- what is in flight was, and every call that was made is still there
    have hmoves : (∀ u, u ∈ agent.inFlight → u ∈ s.inFlight) ∧
        (appending agent.inFlight).Sublist (appending s.inFlight) ∧
        agent.calls = s.agent.calls := by
      have hdrop : ∀ no update, s.agent.inFlight = (no, update) :: agent.inFlight →
          (∀ u, u ∈ agent.inFlight → u ∈ s.inFlight) ∧
          (appending agent.inFlight).Sublist (appending s.inFlight) := by
        intro no update hflight
        show _ ∧ (appending agent.inFlight).Sublist (appending s.agent.inFlight)
        rw [hflight]
        refine ⟨fun u hu => ?_, List.Sublist.filterMap _ (List.sublist_cons_self _ _)⟩
        show u ∈ s.agent.inFlight
        rw [hflight]
        exact List.mem_cons_of_mem _ hu
      cases AgencyAgent.step_moves h.updating hagent with
      | call update => exact (Resources.ofAgent_ne_call hevent update rfl).elim
      | stay hflight _ _ _ hcalls =>
        refine ⟨fun u hu => ?_, ?_, hcalls⟩
        · show u ∈ s.agent.inFlight
          rw [← hflight]
          exact hu
        · show (appending agent.inFlight).Sublist (appending s.agent.inFlight)
          rw [hflight]
      | @fail _ _ no update _ hflight _ _ _ hcalls =>
        exact ⟨(hdrop no update hflight).1, (hdrop no update hflight).2, hcalls⟩
      | @commit _ _ no update _ _ _ hflight _ _ _ _ hcalls =>
        exact ⟨(hdrop no update hflight).1, (hdrop no update hflight).2, hcalls⟩
    obtain ⟨hsub, hsublist, hcalls⟩ := hmoves
    refine ⟨hupdating, h.counter, h.ids, h.pending, fun no a hu => h.flight no a (hsub _ hu),
      fun id hid => h.apart id (hsublist.subset hid), h.distinct.sublist hsublist, fun c hc => ?_⟩
    obtain ⟨hid, hentry, hnot, hcall⟩ := h.confirms c hc
    exact ⟨hid, hentry, hnot, hcalls ▸ hcall⟩

theorem new_issued (now : ℚ) : Issued orders desc (Resources.new now desc) := by
  have hpending : ∀ id, (Resources.new now desc).pending.lookup id = none := by
    intro id
    rw [Resources.lookup_pending]
    rfl
  refine ⟨AgencyAgent.new_updates, rfl, rfl, fun id item hid => ?_, fun no a hu => (by cases hu),
    fun id hid => (by cases hid), List.nodup_nil, fun c hc => (by cases hc)⟩
  rw [hpending] at hid
  cases hid

end Ids

/-! ## Ids of confirmed allocations -/

/-- What confirming amounts to: a new allocation is stored under an id that none had, and nothing else
changes; the id of a pending entry is not that of a confirmed allocation; and where an id that
was handed out for an entry is, the entry is an allocation that was stored under it. -/
structure IdsSafe (s : Resources) : Prop where
  added : ∀ a before after, (.append a, before, after) ∈ s.committed →
    before.allocations.lookup a.id = none ∧
    ∀ id, after.allocations.lookup id = if id = a.id then some a else before.allocations.lookup id
  pending : ∀ id item, s.pending.lookup id = some item → s.getConfirmed.lookup id = none
  denotes : ∀ entry ∈ s.issued.map Prod.fst, ∀ b, s.getConfirmed.lookup entry.id = some b →
    ∃ a before after, entry = .allocation a ∧ (.append a, before, after) ∈ s.committed

/-- Whether the event creates an entry. -/
def creates (orders : Orders) (s : Resources) : Resources.Event → Bool
  | .preallocate params | .allocate params => (s.allocateAll orders params).isOk
  | .premodify id params =>
    (s.getConfirmed.lookup id).any fun a => (s.modifyAll orders a params).isOk
  | _ => false

/-- When an entry is created, the next id is not that of a confirmed allocation. -/
def FreshId (orders : Orders) (s : Resources) (event : Resources.Event) : Prop :=
  creates orders s event = true → (s.getConfirmed.lookup s.nextId).isNone = true

instance (orders : Orders) (s : Resources) (event : Resources.Event) :
    Decidable (FreshId orders s event) := inferInstanceAs (Decidable (_ → _))

section Fresh
variable {orders : Orders} {desc out : Descriptor} {s t : Resources}

/-- The id of an entry that is created is not that of a confirmed allocation. -/
theorem generated_fresh {event : Resources.Event} {entry : Entry}
    (hgenerated : Resources.Generated orders s event entry) (hfresh : FreshId orders s event) :
    entry.id = s.nextId ∧ s.getConfirmed.lookup s.nextId = none := by
  have hcreates : creates orders s event = true := by
    cases hgenerated with
    | preallocated hall => simp [creates, hall, Except.isOk, Except.toBool]
    | allocated hall => simp [creates, hall, Except.isOk, Except.toBool]
    | premodified hid hall => simp [creates, hid, hall, Except.isOk, Except.toBool]
  refine ⟨by cases hgenerated <;> rfl, ?_⟩
  exact Option.isNone_iff_eq_none.mp (hfresh hcreates)

/-- Ids that are pending or in flight are not confirmed, and the rest. -/
structure IdsInv (orders : Orders) (desc : Descriptor) (s : Resources) : Prop where
  issued : Issued orders desc s
  pending : ∀ id item, s.pending.lookup id = some item → s.getConfirmed.lookup id = none
  flight : ∀ id ∈ appending s.inFlight, s.getConfirmed.lookup id = none
  added : ∀ a before after, (.append a, before, after) ∈ s.committed →
    before.allocations.lookup a.id = none ∧
    ∀ id, after.allocations.lookup id = if id = a.id then some a else before.allocations.lookup id
  denotes : ∀ entry ∈ s.issued.map Prod.fst, ∀ b, s.getConfirmed.lookup entry.id = some b →
    ∃ a before after, entry = .allocation a ∧ (.append a, before, after) ∈ s.committed

/-- Only `do_append` stores anything under a new id. -/
theorem exec_keys {update : Update} {result : Option Allocation} (hnot : update.appends = none)
    (h : exec orders update desc = .ok (out, result)) {id : String} {b : Allocation}
    (hb : out.allocations.lookup id = some b) : ∃ b', desc.allocations.lookup id = some b' := by
  cases update with
  | append a => cases hnot
  | applyModification c =>
    simp only [exec] at h
    split at h
    · cases h
    · rename_i a hlookup
      cases happly : a.apply orders c with
      | error e =>
        rw [happly] at h
        cases h
      | ok a' =>
        rw [happly] at h
        cases h
        by_cases hid : id = c.allocationId
        · rw [hid]
          exact ⟨a, hlookup⟩
        · exact ⟨b, by rwa [← AList.lookup_insert_ne hid]⟩
  | remove a =>
    simp only [exec] at h
    split at h
    · cases h
      exact ⟨b, hb⟩
    · cases h
      by_cases hid : id = a.id
      · subst hid
        rw [AList.lookup_erase] at hb
        cases hb
      · exact ⟨b, by rwa [← AList.lookup_erase_ne hid]⟩

/-- The update that is saved: a new allocation under its own id, or no new id. -/
theorem commit_ids (h : IdsInv orders desc s) {agent : Agent} {no : Nat} {update : Update}
    {result : Option Allocation} {rev : String} (hissued : Issued orders desc { s with agent })
    (hflight : s.agent.inFlight = (no, update) :: agent.inFlight)
    (hexec : exec orders update s.agent.descriptor = .ok (out, result))
    (hdesc : agent.descriptor = out.withRev rev)
    (hcommitted : agent.committed =
      s.agent.committed ++ [(update, s.agent.descriptor, agent.descriptor)]) :
    IdsInv orders desc { s with agent } := by
  have hconfirmed : agent.descriptor.allocations = out.allocations := by
    rw [hdesc]
    rfl
  have happending : appending s.inFlight = update.appends.toList ++ appending agent.inFlight := by
    show appending s.agent.inFlight = _
    rw [hflight]
    unfold appending
    rw [List.filterMap_cons]
    cases update.appends <;> rfl
  have hgrows : ∀ {entry : Entry}, (∃ a before after, entry = .allocation a ∧
        (.append a, before, after) ∈ s.agent.committed) →
      ∃ a before after, entry = .allocation a ∧ (.append a, before, after) ∈ agent.committed := by
    intro entry hold
    obtain ⟨a, before, after, heq, hin⟩ := hold
    exact ⟨a, before, after, heq, hcommitted ▸ List.mem_append_left _ hin⟩
  cases happends : update.appends with
  | none =>
    -- no new id
    have hkeys : ∀ id, s.agent.descriptor.allocations.lookup id = none →
        agent.descriptor.allocations.lookup id = none := by
      intro id hid
      rw [hconfirmed]
      cases hb : out.allocations.lookup id with
      | none => rfl
      | some b =>
        obtain ⟨b', hb'⟩ := exec_keys happends hexec hb
        rw [hid] at hb'
        cases hb'
    refine ⟨hissued, fun id item hid => hkeys id (h.pending id item hid), ?_, ?_, ?_⟩
    · intro id hid
      refine hkeys id (h.flight id ?_)
      rw [happending, happends]
      exact hid
    · intro a before after hin
      have hin : (.append a, before, after) ∈ agent.committed := hin
      rw [hcommitted] at hin
      rcases List.mem_append.mp hin with hin | hin
      · exact h.added a before after hin
      · cases List.mem_singleton.mp hin
        cases happends
    · intro entry hentry b hb
      have hb : agent.descriptor.allocations.lookup entry.id = some b := hb
      cases hold : s.agent.descriptor.allocations.lookup entry.id with
      | none =>
        rw [hkeys entry.id hold] at hb
        cases hb
      | some b' => exact hgrows (h.denotes entry hentry b' hold)
  | some id₀ =>
    cases update with
    | applyModification c => cases happends
    | remove a => cases happends
    | append a =>
      cases happends
      cases hexec
      have hnodup := h.issued.distinct
      rw [happending, Update.appends, Option.toList_some, List.singleton_append,
        List.nodup_cons] at hnodup
      have hin : a.id ∈ appending s.inFlight := by
        rw [happending]
        exact List.mem_append_left _ (by simp [Update.appends])
      have hnone := h.flight a.id hin
      have hlookup : ∀ id, agent.descriptor.allocations.lookup id =
          if id = a.id then some a else s.agent.descriptor.allocations.lookup id := by
        intro id
        rw [hconfirmed]
        split
        · rename_i heq
          rw [heq, AList.lookup_insert]
        · rename_i hne
          rw [AList.lookup_insert_ne hne]
      refine ⟨hissued, ?_, ?_, ?_, ?_⟩
      · intro id item hid
        have hne : id ≠ a.id := by
          intro heq
          have hid : s.pending.lookup id = some item := hid
          rw [heq, h.issued.apart a.id hin] at hid
          cases hid
        refine (hlookup id).trans ?_
        rw [if_neg hne]
        exact h.pending id item hid
      · intro id hid
        have hid : id ∈ appending agent.inFlight := hid
        have hne : id ≠ a.id := fun heq => hnodup.1 (heq ▸ hid)
        refine (hlookup id).trans ?_
        rw [if_neg hne]
        refine h.flight id ?_
        rw [happending]
        exact List.mem_append_right _ hid
      · intro a' before after hadded
        have hadded : (.append a', before, after) ∈ agent.committed := hadded
        rw [hcommitted] at hadded
        rcases List.mem_append.mp hadded with hold | hnew
        · exact h.added a' before after hold
        · cases List.mem_singleton.mp hnew
          exact ⟨hnone, hlookup⟩
      · intro entry hentry b hb
        have hb := (hlookup entry.id).symm.trans hb
        split at hb
        · rename_i heq
          obtain ⟨n, a', hu, hid⟩ := mem_appending.mp hin
          have hfirst : (no, Update.append a) ∈ s.inFlight := by
            show _ ∈ s.agent.inFlight
            rw [hflight]
            exact List.mem_cons_self
          have hsame : entry = .allocation a :=
            h.issued.unique hentry (h.issued.flight no a hfirst) heq
          refine ⟨a, s.agent.descriptor, agent.descriptor, hsame, ?_⟩
          show _ ∈ agent.committed
          rw [hcommitted]
          exact List.mem_append_right _ (List.mem_singleton.mpr rfl)
        · exact hgrows (h.denotes entry hentry b hb)

/-- Every event keeps it that creates no entry with the id of a confirmed allocation. -/
theorem step_ids {event : Resources.Event} (h : IdsInv orders desc s)
    (hfresh : FreshId orders s event) (hstep : s.step orders event = some t) :
    IdsInv orders desc t := by
  have hissued := step_issued h.issued hstep
  cases Resources.step_cases hstep with
  | define => exact ⟨hissued, h.pending, h.flight, h.added, h.denotes⟩
  | @quiet now modifications _ hlive =>
    refine ⟨hissued, fun id item hid => h.pending id item ?_, h.flight, h.added, h.denotes⟩
    rw [Resources.lookup_pending] at hid ⊢
    exact hlive id item hid
  | @pend entry params modifications _ _ hgenerated hlive =>
    obtain ⟨hid, hnone⟩ := generated_fresh hgenerated hfresh
    refine ⟨hissued, ?_, h.flight, h.added, ?_⟩
    · intro id item hitem
      rw [Resources.lookup_pending] at hitem
      have hitem := (hlive id).symm.trans hitem
      split at hitem
      · rename_i heq
        rw [heq, hid]
        exact hnone
      · exact h.pending id item ((Resources.lookup_pending s id).trans hitem)
    · intro entry' hentry' b hb
      have hentry' : entry' ∈ (s.issued ++ [(entry, params)]).map Prod.fst := hentry'
      rw [List.map_append] at hentry'
      rcases List.mem_append.mp hentry' with hold | hnew
      · exact h.denotes entry' hold b hb
      · cases List.mem_singleton.mp hnew
        have hb : s.getConfirmed.lookup entry.id = some b := hb
        rw [hid, hnone] at hb
        cases hb
  | @send a params _ hgenerated =>
    obtain ⟨hid, hnone⟩ := generated_fresh hgenerated hfresh
    obtain ⟨hflight, hdesc, _, hcommitted, _, _⟩ :=
      Resources.send_spec (s := s.issue (.allocation a) params) h.issued.updating (.append a)
    have hconfirmed : ((s.issue (.allocation a) params).send (.append a)).1.getConfirmed =
        s.getConfirmed := congrArg Descriptor.allocations hdesc
    refine ⟨hissued, ?_, ?_, ?_, ?_⟩
    · rw [hconfirmed]
      exact h.pending
    · intro id hin
      rw [hconfirmed]
      obtain ⟨no, a', hu, rfl⟩ := mem_appending.mp hin
      rw [hflight] at hu
      rcases List.mem_append.mp hu with hu | hu
      · exact h.flight a'.id (mem_appending.mpr ⟨no, a', hu, rfl⟩)
      · cases List.mem_singleton.mp hu
        rw [show a.id = s.nextId from hid]
        exact hnone
    · rw [hcommitted]
      exact h.added
    · rw [hconfirmed, hcommitted]
      intro entry' hentry' b hb
      have hentry' : entry' ∈ (s.issued ++ [(Entry.allocation a, params)]).map Prod.fst := hentry'
      rw [List.map_append] at hentry'
      rcases List.mem_append.mp hentry' with hold | hnew
      · exact h.denotes entry' hold b hb
      · cases List.mem_singleton.mp hnew
        rw [hid, hnone] at hb
        cases hb
  | @take id exp entry modifications confirms _ hitem hlive _ =>
    have hbefore : s.pending.lookup id = some ⟨exp, some entry⟩ :=
      (Resources.lookup_pending s id).trans hitem
    obtain ⟨hflight, hdesc, _, hcommitted, _, _⟩ :=
      Resources.send_spec (s := { s with modifications, confirms }) h.issued.updating entry.update
    have hconfirmed : (({ s with modifications, confirms } : Resources).send
        entry.update).1.getConfirmed = s.getConfirmed := congrArg Descriptor.allocations hdesc
    refine ⟨hissued, ?_, ?_, ?_, ?_⟩
    · intro id' item hid'
      rw [hconfirmed]
      rw [Resources.lookup_pending] at hid'
      have hid' := (hlive id').symm.trans hid'
      split at hid'
      · cases hid'
      · exact h.pending id' item ((Resources.lookup_pending s id').trans hid')
    · intro id' hin
      rw [hconfirmed]
      obtain ⟨no, a', hu, rfl⟩ := mem_appending.mp hin
      rw [hflight] at hu
      rcases List.mem_append.mp hu with hu | hu
      · exact h.flight a'.id (mem_appending.mpr ⟨no, a', hu, rfl⟩)
      · obtain ⟨_, entry', heq, hid', _⟩ := h.issued.pending id _ hbefore
        cases heq
        cases entry with
        | change c => cases List.mem_singleton.mp hu
        | allocation a =>
          cases List.mem_singleton.mp hu
          rw [show a'.id = id from hid']
          exact h.pending id _ hbefore
    · rw [hcommitted]
      exact h.added
    · rw [hconfirmed, hcommitted]
      exact h.denotes
  | @remove id a modifications _ _ hlive =>
    obtain ⟨hflight, hdesc, _, hcommitted, _, _⟩ :=
      Resources.send_spec (s := { s with modifications }) h.issued.updating (.remove a)
    have hconfirmed : (({ s with modifications } : Resources).send
        (.remove a)).1.getConfirmed = s.getConfirmed := congrArg Descriptor.allocations hdesc
    refine ⟨hissued, ?_, ?_, ?_, ?_⟩
    · intro id' item hid'
      rw [hconfirmed]
      rw [Resources.lookup_pending] at hid'
      exact h.pending id' item ((Resources.lookup_pending s id').trans ((hlive id').symm.trans hid'))
    · intro id' hin
      rw [hconfirmed]
      obtain ⟨no, a', hu, rfl⟩ := mem_appending.mp hin
      rw [hflight] at hu
      rcases List.mem_append.mp hu with hu | hu
      · exact h.flight a'.id (mem_appending.mpr ⟨no, a', hu, rfl⟩)
      · cases List.mem_singleton.mp hu
    · rw [hcommitted]
      exact h.added
    · rw [hconfirmed, hcommitted]
      exact h.denotes
  | @agent agentEvent agent hevent hagent =>
    have hsame : agent.descriptor = s.agent.descriptor → agent.committed = s.agent.committed →
        (∀ u, u ∈ agent.inFlight → u ∈ s.agent.inFlight) →
        IdsInv orders desc { s with agent } := by
      intro hdesc hcommitted hsub
      have hconfirmed : Resources.getConfirmed { s with agent } = s.getConfirmed :=
        congrArg Descriptor.allocations hdesc
      have hcommitted : Resources.committed { s with agent } = s.committed := hcommitted
      refine ⟨hissued, ?_, ?_, ?_, ?_⟩
      · rw [hconfirmed]
        exact h.pending
      · intro id hin
        rw [hconfirmed]
        obtain ⟨no, a, hu, rfl⟩ := mem_appending.mp hin
        exact h.flight a.id (mem_appending.mpr ⟨no, a, hsub _ hu, rfl⟩)
      · rw [hcommitted]
        exact h.added
      · rw [hconfirmed, hcommitted]
        exact h.denotes
    cases AgencyAgent.step_moves h.issued.updating hagent with
    | call update => exact (Resources.ofAgent_ne_call hevent update rfl).elim
    | stay hflight hdesc _ hcommitted _ =>
      exact hsame hdesc hcommitted (fun u hu => hflight ▸ hu)
    | fail hflight hdesc _ hcommitted _ =>
      exact hsame hdesc hcommitted (fun u hu => hflight ▸ List.mem_cons_of_mem _ hu)
    | commit hflight hexec hdesc _ hcommitted _ =>
      exact commit_ids h hissued hflight hexec hdesc hcommitted

theorem new_ids (now : ℚ) : IdsInv orders desc (Resources.new now desc) := by
  refine ⟨new_issued now, fun id item hid => ?_, fun id hid => (by cases hid),
    fun a before after hin => (by cases hin), fun entry hentry => (by cases hentry)⟩
  rw [Resources.lookup_pending] at hid
  cases hid

end Fresh

/-! ## Runs -/

/-- In every run that creates no entry with the id of a confirmed allocation, confirming destroys no
other allocation. -/
theorem ids_safe {orders : Orders} {now : ℚ} {desc : Descriptor} {events : List Resources.Event}
    {s : Resources}
    (hrun : Run (Guarded (FreshId orders) (Defined (Resources.step orders))) (.new now desc)
      events s) : IdsSafe s :=
  have hinv : IdsInv orders desc s :=
    hrun.preserves (fun _ _ _ h hstep => step_ids h hstep.1 hstep.2) (new_ids now)
  ⟨hinv.added, hinv.pending, hinv.denotes⟩

/-- An agent that starts with an allocation confirmed as `"7"` confirms two more, and a change. -/
theorem ids_safe_restarted :
    let orders : Orders := ⟨.stored, .stored⟩
    let params : Params := Dict.ofList [("cpu", [.int 2])]
    let desc : Descriptor := ⟨"1-a", Dict.ofList [("7", ⟨"7", Dict.ofList [("cpu", .scalar 2)]⟩)]⟩
    let events : List Resources.Event :=
      [.define "cpu" (.scalar (.int 10)), .allocate params, .preallocate params, .run,
        .saved 0 "2-b", .run, .next, .confirm "2", .premodify "7" params, .run, .saved 0 "3-c",
        .run, .next, .confirm "3", .run, .saved 0 "4-d"]
    ∃ s, Run (Guarded (FreshId orders) (Defined (Resources.step orders))) (.new 0 desc) events s ∧
      s.getConfirmed.keys = ["7", "2", "1"] ∧ IdsSafe s := by
  intro orders params desc events
  have hend : ((events.foldlM (checked (FreshId orders) (Resources.step orders))
      (.new 0 desc)).map fun s => s.getConfirmed.keys) = some ["7", "2", "1"] := by decide +kernel
  obtain ⟨s, hs, hkeys⟩ := Option.map_eq_some_iff.mp hend
  have hrun := run_checked hs
  exact ⟨s, hrun, hkeys, ids_safe hrun⟩

/-- An agent that starts with an allocation confirmed as `"1"` stores its first one over it. -/
theorem restart_overwrites :
    let orders : Orders := ⟨.stored, .stored⟩
    let params : Params := Dict.ofList [("cpu", [.int 2])]
    let desc : Descriptor := ⟨"1-a", Dict.ofList [("1", ⟨"1", Dict.ofList [("cpu", .scalar 3)]⟩)]⟩
    let events : List Resources.Event :=
      [.define "cpu" (.scalar (.int 10)), .allocate params, .run, .saved 0 "2-b"]
    ∃ s, Run (Defined (Resources.step orders)) (.new 0 desc) events s ∧ ¬ IdsSafe s := by
  intro orders params desc events
  have hend : ((events.foldlM (Resources.step orders) (.new 0 desc)).map fun s =>
      s.committed.map fun c => (c.1.appends, c.2.1.allocations.keys)) =
      some [(some "1", ["1"])] := by decide +kernel
  obtain ⟨s, hs, hcommitted⟩ := Option.map_eq_some_iff.mp hend
  refine ⟨s, run_defined hs, fun h => ?_⟩
  obtain ⟨⟨update, before, after⟩, hin, hpair⟩ :=
    List.mem_map.mp (hcommitted ▸ List.mem_singleton.mpr rfl)
  obtain ⟨happends, hkeys⟩ := Prod.mk.inj hpair
  cases update with
  | append a =>
    have hnone := (h.added a before after hin).1
    rw [show a.id = "1" from Option.some.inj happends, AList.lookup_eq_none, AList.mem_keys,
      show before.allocations.keys = ["1"] from hkeys] at hnone
    exact hnone (List.mem_singleton.mpr rfl)
  | applyModification c => cases happends
  | remove a => cases happends

end Feat.Agents
