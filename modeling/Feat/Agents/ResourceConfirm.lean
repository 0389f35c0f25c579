import Feat.Agents.ResourceIds

/- Whether confirming a pending entry is all or nothing.

   `confirm` takes the entry out of the pending ones and calls for an update of the
   descriptor. When the update is saved, all resources of the entry are in the
   descriptor. When it fails, the descriptor is as it was but the entry is not pending
   any more, although it would not have expired yet (`release_loses_pending`).

   So a confirm is all or nothing if and only if its update can be applied to the
   descriptor it is run on, and saved, or the entry would have expired by then anyway
   (`confirm_all_or_nothing`). -/
namespace Feat.Agents
open Hash Expiring Feat.Common Feat.Agencies Transition

/-- The item that was pending before it was confirmed. -/
def Confirm.item (c : Confirm) : ExpItem Entry := ⟨c.exp, some c.entry⟩

/-- The entry can be applied: an allocation always, a change if its allocation is confirmed and every
delta can be added to what it has of the resource, if anything. -/
def Possible (orders : Orders) (allocations : Dict String Allocation) : Entry → Prop
  | .allocation _ => True
  | .change c => ∃ a, allocations.lookup c.allocationId = some a ∧
      ∀ name delta, c.deltas.lookup name = some delta →
        ∃ r, ((a.alloc.lookup name).getD delta.zero).add orders delta = .ok r

/-- The change has been applied to every resource that it names, and to no other. -/
structure Changed (orders : Orders) (c : AllocationChange) (a a' : Allocation) : Prop where
  id : a'.id = a.id
  named : ∀ name delta, c.deltas.lookup name = some delta →
    ∃ amount nonzero, ((a.alloc.lookup name).getD delta.zero).add orders delta =
      .ok (amount, nonzero) ∧ a'.alloc.lookup name = if nonzero then some amount else none
  others : ∀ name, c.deltas.lookup name = none → a'.alloc.lookup name = a.alloc.lookup name

/-- The entry has been applied to what was confirmed, and nothing else. -/
def Applied (orders : Orders) (before after : Dict String Allocation) : Entry → Prop
  | .allocation a => ∀ id, after.lookup id = if id = a.id then some a else before.lookup id
  | .change c => ∃ a a', before.lookup c.allocationId = some a ∧ Changed orders c a a' ∧
      ∀ id, after.lookup id = if id = c.allocationId then some a' else before.lookup id

/-- A confirm that reports a result: either the entry has been applied and is not pending any more, or
what is confirmed is as it was and the entry is pending as it was, until it expires. -/
def AllOrNothing (orders : Orders) (s t : Resources) (c : Confirm) :
    Except Error (Option Allocation) → Prop
  | .ok _ => Applied orders s.getConfirmed t.getConfirmed c.entry ∧ t.pending.lookup c.id = none
  | .error _ => t.getConfirmed = s.getConfirmed ∧
      (c.item.alive t.now = true → t.pending.lookup c.id = some c.item)

section Confirms
variable {orders : Orders} {desc out : Descriptor} {s t : Resources}

theorem apply_changed {c : AllocationChange} {a a' : Allocation}
    (h : a.apply orders c = .ok a') : Changed orders c a a' := by
  refine ⟨apply_id h, fun name delta hdelta => ?_, fun name hnone => ?_⟩
  · obtain ⟨⟨amount, nonzero⟩, hadd⟩ := apply_isOk_iff.mp ⟨a', h⟩ name delta hdelta
    refine ⟨amount, nonzero, hadd, ?_⟩
    rw [apply_lookup h, hdelta]
    show added orders _ delta = _
    unfold added
    rw [hadd]
    cases nonzero <;> rfl
  · rw [apply_lookup h, hnone]

/-- The function of the update succeeds if and only if the entry can be applied. -/
theorem possible_iff {entry : Entry} : Possible orders desc.allocations entry ↔
    ∃ r, exec orders entry.update desc = .ok r := by
  cases entry with
  | allocation a => exact iff_of_true trivial ⟨_, rfl⟩
  | change c =>
    show (∃ a, _) ↔ ∃ r, exec orders (.applyModification c) desc = .ok r
    unfold exec
    refine ⟨fun h => ?_, fun h => ?_⟩
    · obtain ⟨a, ha, hadd⟩ := h
      obtain ⟨a', happly⟩ := apply_isOk_iff.mpr hadd
      simp only [ha, happly]
      exact ⟨_, rfl⟩
    · obtain ⟨r, hr⟩ := h
      simp only at hr
      split at hr
      · cases hr
      · rename_i a ha
        refine ⟨a, ha, apply_isOk_iff.mp ?_⟩
        cases happly : a.apply orders c with
        | error e =>
          rw [happly] at hr
          cases hr
        | ok a' => exact ⟨a', rfl⟩

/-- What the update of an entry does. -/
theorem exec_applied {entry : Entry} {result : Option Allocation}
    (h : exec orders entry.update desc = .ok (out, result)) :
    Applied orders desc.allocations out.allocations entry := by
  have hinsert : ∀ (key : String) (a : Allocation) (id : String),
      (desc.allocations.insert key a).lookup id =
        if id = key then some a else desc.allocations.lookup id := by
    intro key a id
    by_cases hid : id = key
    · rw [if_pos hid, hid, AList.lookup_insert]
    · rw [if_neg hid, AList.lookup_insert_ne hid]
  cases entry with
  | allocation a =>
    cases h
    exact hinsert a.id a
  | change c =>
    simp only [Entry.update, exec] at h
    split at h
    · cases h
    · rename_i a hlookup
      cases happly : a.apply orders c with
      | error e =>
        rw [happly] at h
        cases h
      | ok a' =>
        rw [happly] at h
        cases h
        exact ⟨a, a', hlookup, apply_changed happly, hinsert c.allocationId a'⟩

/-- A Deferred is fired by the agent only, and that leaves the pending entries alone. -/
theorem fired_by_agent (hissued : Issued orders desc s) {event : Resources.Event}
    (hstep : s.step orders event = some t) {fired : ℕ × Except Error (Option Allocation)}
    (hfired : t.agent.fired = s.agent.fired ++ [fired]) :
    ∃ agentEvent agent, event.ofAgent = some agentEvent ∧ t = { s with agent } ∧
      s.agent.step (exec orders) Descriptor.withRev agentEvent = some agent := by
  have hnot : t.agent.fired ≠ s.agent.fired := by
    intro heq
    have hlength := congrArg List.length (hfired.symm.trans heq)
    simp at hlength
  have hsent : ∀ (s' : Resources) update, s'.agent = s.agent →
      (s'.send update).1.agent.fired = s.agent.fired := by
    intro s' update hagent
    have hupdating : Resources.Updating orders desc s' := by
      unfold Resources.Updating
      rw [hagent]
      exact hissued.updating
    rw [(Resources.send_spec hupdating update).2.2.1, hagent]
  cases Resources.step_cases hstep with
  | define => exact (hnot rfl).elim
  | quiet => exact (hnot rfl).elim
  | pend => exact (hnot rfl).elim
  | send => exact (hnot (hsent (s.issue _ _) _ rfl)).elim
  | take => exact (hnot (hsent { s with modifications := _, confirms := _ } _ rfl)).elim
  | remove => exact (hnot (hsent { s with modifications := _ } _ rfl)).elim
  | agent hevent hagent => exact ⟨_, _, hevent, rfl, hagent⟩

theorem ofAgent_failed {event : Resources.Event} {k : ℕ} {e : Error}
    (h : event.ofAgent = some (.failed k e)) : event = .failed k e := by
  cases event <;> cases h
  rfl

/-- The first update in flight is that of the confirm that is reported. -/
theorem confirm_update (hissued : Issued orders desc s) {c : Confirm} (hc : c ∈ s.confirms)
    {update : Update} (hflight : (c.no, update) ∈ s.agent.inFlight) : update = c.entry.update := by
  obtain ⟨_, _, _, hcall⟩ := hissued.confirms c hc
  have hcall' := AgencyAgent.inFlight_calls hissued.updating hflight
  exact Option.some.inj (hcall'.symm.trans hcall)

end Confirms

/-- In every state that is reached, a confirm that reports a result is all or nothing if and only if
its entry can be applied to what is confirmed and the database does not refuse the save, or the
entry would have expired by then. -/
theorem confirm_all_or_nothing {orders : Orders} {now : ℚ} {desc : Descriptor}
    {events : List Resources.Event} {s t : Resources} {event : Resources.Event} {c : Confirm}
    {result : Except Error (Option Allocation)}
    (hrun : Run (Defined (Resources.step orders)) (.new now desc) events s)
    (hc : c ∈ s.confirms) (hstep : s.step orders event = some t)
    (hfired : t.agent.fired = s.agent.fired ++ [(c.no, result)]) :
    AllOrNothing orders s t c result ↔
      (Possible orders s.getConfirmed c.entry ∧ ∀ k e, event ≠ .failed k e) ∨
        c.item.alive s.now = false := by
  have hissued : Issued orders desc s :=
    hrun.preserves (fun _ _ _ h hstep => step_issued h hstep) (new_issued now)
  have hgone : s.pending.lookup c.id = none := (hissued.confirms c hc).2.2.1
  obtain ⟨agentEvent, agent, hevent, rfl, hagent⟩ := fired_by_agent hissued hstep hfired
  have hfired : agent.fired = s.agent.fired ++ [(c.no, result)] := hfired
  have hsame : ∀ {no result'}, agent.fired = s.agent.fired ++ [(no, result')] →
      no = c.no ∧ result' = result := by
    intro no result' heq
    have hlast := List.append_cancel_left (hfired.symm.trans heq)
    exact Prod.mk.inj (List.singleton_inj.mp hlast).symm
  cases AgencyAgent.step_moves hissued.updating hagent with
  | call update => exact (Resources.ofAgent_ne_call hevent update rfl).elim
  | stay _ _ hstill =>
    have hlength := congrArg List.length (hfired.symm.trans hstill)
    simp at hlength
  | @fail _ _ no update e hflight hdesc hfail _ _ hwhy =>
    obtain ⟨rfl, rfl⟩ := hsame hfail
    have hupdate : update = c.entry.update :=
      confirm_update hissued hc (by rw [hflight]; exact List.mem_cons_self)
    subst hupdate
    -- the entry is not pending, so this is right if it has expired only
    have hnothing : AllOrNothing orders s { s with agent } c (.error e) ↔
        c.item.alive s.now = false := by
      have hconfirmed : Resources.getConfirmed { s with agent } = s.getConfirmed :=
        congrArg Descriptor.allocations hdesc
      refine ⟨fun h => ?_, fun h => ⟨hconfirmed, fun halive => ?_⟩⟩
      · cases halive : c.item.alive s.now with
        | false => rfl
        | true =>
          have hback : s.pending.lookup c.id = some c.item := h.2 halive
          rw [hgone] at hback
          cases hback
      · have halive : c.item.alive s.now = true := halive
        rw [h] at halive
        cases halive
    rw [hnothing]
    refine ⟨Or.inr, fun h => ?_⟩
    rcases h with ⟨hpossible, hnotFailed⟩ | hdead
    · rcases hwhy with ⟨_, hexec⟩ | ⟨⟨k, hfailed⟩, _⟩
      · obtain ⟨r, hr⟩ := possible_iff.mp hpossible
        have hr : exec orders c.entry.update s.agent.descriptor = .ok r := hr
        rw [hexec] at hr
        cases hr
      · rw [hfailed] at hevent
        exact (hnotFailed k e (ofAgent_failed hevent)).elim
    · exact hdead
  | @commit _ k no update out result' rev hflight hexec hdesc hcommit _ _ =>
    obtain ⟨rfl, rfl⟩ := hsame hcommit
    have hupdate : update = c.entry.update :=
      confirm_update hissued hc (by rw [hflight]; exact List.mem_cons_self)
    subst hupdate
    have hall : AllOrNothing orders s { s with agent } c (.ok result') := by
      have hconfirmed : Resources.getConfirmed { s with agent } = out.allocations := by
        show agent.descriptor.allocations = _
        rw [hdesc]
        rfl
      refine ⟨?_, hgone⟩
      rw [hconfirmed]
      exact exec_applied hexec
    refine iff_of_true hall (Or.inl ⟨possible_iff.mpr ⟨_, hexec⟩, fun k' e heq => ?_⟩)
    rw [heq] at hevent
    cases hevent

/-- A pending allocation is confirmed. -/
theorem confirm_all_or_nothing_saved :
    let orders : Orders := ⟨.stored, .stored⟩
    let params : Params := Dict.ofList [("cpu", [.int 2])]
    let events : List Resources.Event :=
      [.define "cpu" (.scalar (.int 10)), .preallocate params, .confirm "1", .run]
    ∃ s t c result, Run (Defined (Resources.step orders)) (.new 0 ⟨"1-a", ∅⟩) events s ∧
      s.step orders (.saved 0 "2-b") = some t ∧ c ∈ s.confirms ∧
      t.getConfirmed.keys = ["1"] ∧ AllOrNothing orders s t c result := by
  intro orders params events
  have hend : ((events.foldlM (Resources.step orders) (.new 0 ⟨"1-a", ∅⟩)).bind fun s =>
      (s.step orders (.saved 0 "2-b")).map fun t =>
        (s.confirms.map fun c => (c.no, c.entry.update.appends), s.agent.fired.length,
          t.agent.fired.map Prod.fst, t.getConfirmed.keys)) =
      some ([(0, some "1")], 0, [0], ["1"]) := by decide +kernel
  obtain ⟨s, hs, hend⟩ := Option.bind_eq_some_iff.mp hend
  obtain ⟨t, ht, hend⟩ := Option.map_eq_some_iff.mp hend
  simp only [Prod.mk.injEq] at hend
  obtain ⟨hconfirms, hnone, hfired, hkeys⟩ := hend
  obtain ⟨c, hc, hpair⟩ := List.map_eq_singleton_iff.mp hconfirms
  obtain ⟨⟨no, result⟩, hone, hno⟩ := List.map_eq_singleton_iff.mp hfired
  obtain ⟨hcno, happends⟩ := Prod.mk.inj hpair
  have hin : c ∈ s.confirms := by simp [hc]
  have hreport : t.agent.fired = s.agent.fired ++ [(c.no, result)] := by
    rw [List.length_eq_zero_iff.mp hnone, hone, hcno, show no = 0 from hno]
    rfl
  refine ⟨s, t, c, result, run_defined hs, ht, hin, hkeys, ?_⟩
  refine (confirm_all_or_nothing (run_defined hs) hin ht hreport).mpr
    (Or.inl ⟨?_, fun k e heq => (by cases heq)⟩)
  cases hentry : c.entry with
  | allocation a => trivial
  | change c' =>
    rw [hentry] at happends
    cases happends

/-- The allocation is released before the change of it is confirmed: the change is neither applied nor
pending any more, eight seconds before it expires. -/
theorem release_loses_pending :
    let orders : Orders := ⟨.stored, .stored⟩
    let params : Params := Dict.ofList [("cpu", [.int 2])]
    let events : List Resources.Event :=
      [.define "cpu" (.scalar (.int 10)), .allocate params, .run, .saved 0 "2-b", .run, .next,
        .premodify "1" params, .release "1", .tick 2, .confirm "2", .run, .saved 0 "3-c", .run,
        .next]
    ∃ s t c result, Run (Defined (Resources.step orders)) (.new 0 ⟨"1-a", ∅⟩) events s ∧
      c ∈ s.confirms ∧ s.step orders .run = some t ∧
      t.agent.fired = s.agent.fired ++ [(c.no, result)] ∧ ¬ AllOrNothing orders s t c result := by
  intro orders params events
  have hend : ((events.foldlM (Resources.step orders) (.new 0 ⟨"1-a", ∅⟩)).bind fun s =>
      (s.step orders .run).map fun t =>
        (s.confirms.map fun c => (c.no, c.id, c.item.alive t.now), s.agent.fired.length,
          t.agent.fired.map Prod.fst, (t.pending.lookup "2").isNone)) =
      some ([(2, "2", true)], 2, [0, 1, 2], true) := by
    decide +kernel
  obtain ⟨s, hs, hend⟩ := Option.bind_eq_some_iff.mp hend
  obtain ⟨t, ht, hend⟩ := Option.map_eq_some_iff.mp hend
  simp only [Prod.mk.injEq] at hend
  obtain ⟨hconfirms, hbefore, hafter, hgone⟩ := hend
  obtain ⟨c, hc, hparts⟩ := List.map_eq_singleton_iff.mp hconfirms
  simp only [Prod.mk.injEq] at hparts
  obtain ⟨hno, hid, halive⟩ := hparts
  have hrun := run_defined hs
  have hissued : Issued orders ⟨"1-a", ∅⟩ s :=
    hrun.preserves (fun _ _ _ h hstep => step_issued h hstep) (new_issued 0)
  obtain ⟨agent, hagent, rfl⟩ := Option.map_eq_some_iff.mp ht
  have hlength : agent.fired.length = 3 := by simpa using congrArg List.length hafter
  -- the third update is the one that fails
  cases AgencyAgent.step_moves hissued.updating hagent with
  | stay _ _ hstill =>
    rw [hstill, hbefore] at hlength
    omega
  | @fail _ _ no update e _ _ hfail _ _ _ =>
    have hthird : no = 2 := by
      rw [hfail, List.map_append, List.map_singleton] at hafter
      have hlast : (s.agent.fired.map Prod.fst).length = [0, 1].length := by simpa using hbefore
      have hends := List.append_inj hafter hlast
      exact List.singleton_inj.mp hends.2
    rw [hthird, ← hno] at hfail
    refine ⟨s, _, c, .error e, hrun, by simp [hc], ht, hfail, fun h => ?_⟩
    have hback := h.2 halive
    rw [hid, Option.isNone_iff_eq_none.mp hgone] at hback
    cases hback

end Feat.Agents
