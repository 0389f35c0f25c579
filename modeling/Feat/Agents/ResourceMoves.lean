import Mathlib.Tactic.Linarith
import Feat.Agents.Resource

/- What an event does to the resources of an agent (`step_cases`): a definition is
   made; pending entries expire, are released, or nothing happens; an entry is
   created and kept pending, or sent to the descriptor at once; a pending entry is
   taken by `confirm` and sent to the descriptor; the removal of an allocation is
   sent; the agent goes on with its updates.

   Then what each of the parts says: the parameters an entry was created from
   (`allocateAll_lookup`, `modifyAll_lookup`), what applying a change does to an
   allocation (`apply_lookup`) and when it can be done (`apply_isOk_iff`), and that
   the updates of the descriptor are one after the other in every state
   (`UpdateInv`, kept by `step_agent`). -/
namespace Feat.Agents
open Hash Expiring Feat.Common Feat.Agencies

namespace Resources
variable (orders : Orders)

/-- The entries that are pending, with their expirations. -/
def pending (s : Resources) : Dict String (ExpItem Entry) :=
  purge .stored s.now s.modifications.items

@[simp] theorem lookup_pending (s : Resources) (id : String) :
    s.pending.lookup id = live s.now s.modifications.items id :=
  lookup_purge .stored s.now s.modifications.items id

/-- The updates that have been called and have not finished. -/
def inFlight (s : Resources) : List (Nat × Update) := s.agent.inFlight

/-- The updates that were saved, with the descriptor before and after. -/
def committed (s : Resources) : List (Update × Descriptor × Descriptor) := s.agent.committed

/-- What a request for an entry asks for. -/
def Event.params : Event → Option Params
  | .preallocate params | .allocate params | .premodify _ params => some params
  | _ => none

/-- The entry is what the code makes of a request. -/
inductive Generated (s : Resources) : Event → Entry → Prop where
  | preallocated {params : Params} {alloc : Dict String Amount} :
      s.allocateAll orders params = .ok alloc →
      Generated s (.preallocate params) (.allocation ⟨s.nextId, alloc⟩)
  | allocated {params : Params} {alloc : Dict String Amount} :
      s.allocateAll orders params = .ok alloc →
      Generated s (.allocate params) (.allocation ⟨s.nextId, alloc⟩)
  | premodified {id : String} {params : Params} {a : Allocation} {deltas : Dict String Amount} :
      s.getConfirmed.lookup id = some a → s.modifyAll orders a params = .ok deltas →
      Generated s (.premodify id params) (.change ⟨s.nextId, a.id, deltas⟩)

/-- What an event does. -/
inductive Moves (s : Resources) (event : Event) : Resources → Prop where
  | define {name : String} {factory : Factory} {definition : Definition} :
      event = .define name factory → factory.build = .ok definition →
      Moves s event { s with definitions := s.definitions.insert name definition }
  | quiet {now : ℚ} {modifications : ExpDict String Entry} : s.now ≤ now →
      (∀ id item, live now modifications.items id = some item →
        live s.now s.modifications.items id = some item) →
      Moves s event { s with now, modifications }
  | pend {entry : Entry} {params : Params} {modifications : ExpDict String Entry} :
      event.params = some params → (∀ params, event ≠ .allocate params) →
      Generated orders s event entry →
      (∀ id, live s.now modifications.items id = if id = entry.id
        then some ⟨some (s.now + allocationTimeout), some entry⟩
        else live s.now s.modifications.items id) →
      Moves s event { s.issue entry params with modifications }
  | send {a : Allocation} {params : Params} : event = .allocate params →
      Generated orders s event (.allocation a) →
      Moves s event ((s.issue (.allocation a) params).send (.append a)).1
  | take {id : String} {exp : Option ℚ} {entry : Entry} {modifications : ExpDict String Entry}
      {confirms : List Confirm} :
      event = .confirm id → live s.now s.modifications.items id = some ⟨exp, some entry⟩ →
      (∀ id', live s.now modifications.items id' = if id' = id then none
        else live s.now s.modifications.items id') →
      confirms = s.confirms ++ [⟨s.agent.calls.length, id, exp, entry⟩] →
      Moves s event (({ s with modifications, confirms } : Resources).send entry.update).1
  | remove {id : String} {a : Allocation} {modifications : ExpDict String Entry} :
      event = .release id → s.getConfirmed.lookup id = some a →
      (∀ id, live s.now modifications.items id = live s.now s.modifications.items id) →
      Moves s event (({ s with modifications } : Resources).send (.remove a)).1
  | agent {agentEvent : AgencyAgent.Event Update String Error} {agent : Agent} :
      event.ofAgent = some agentEvent →
      s.agent.step (exec orders) Descriptor.withRev agentEvent = some agent →
      Moves s event { s with agent }

variable {orders} {s t : Resources}

theorem quiet_refl (event : Event) : Moves orders s event s :=
  .quiet (le_refl s.now) fun _ _ h => h

/-- Setting an entry makes it live. -/
theorem live_keep (s : Resources) (entry : Entry) (id : String) :
    live s.now (s.keep orders entry).modifications.items id = if id = entry.id
      then some ⟨some (s.now + allocationTimeout), some entry⟩
      else live s.now s.modifications.items id := by
  have hlater : s.now < s.now + allocationTimeout := by
    show s.now < s.now + 10
    linarith
  have hset : (s.keep orders entry).modifications.items =
      (s.modifications.lazyPack orders.names s.now).items.insert entry.id
        ⟨some (s.now + allocationTimeout), some entry⟩ := by
    simp only [keep, ExpDict.set, deadline, Option.map_some, if_true]
    rw [if_neg (not_le.mpr hlater)]
  rw [hset, live_insert, live_lazyPack]
  congr 1
  simp [Option.filter, Item.alive, hlater]

/-- What popping an entry leaves, and gives. -/
theorem pop_cases (orders : Orders) (d : ExpDict String Entry) (now : ℚ) (id : String) :
    (∀ id', live now (d.pop orders.names now id (some none)).1.items id' =
      if id' = id then none else live now d.items id') ∧
    ∀ entry, (d.pop orders.names now id (some none)).2 = .value (some entry) →
      ∃ exp, live now d.items id = some ⟨exp, some entry⟩ := by
  obtain ⟨hresult, hstate⟩ := pop_spec orders.names d now id (some none)
  refine ⟨fun id' => by rw [hstate, live_erase], fun entry hentry => ?_⟩
  rw [hresult] at hentry
  split at hentry
  · cases hentry
  · cases hlive : live now d.items id with
    | none =>
      rw [hlive] at hentry
      cases hentry
    | some item =>
      rw [hlive] at hentry
      obtain ⟨exp, value⟩ := item
      cases hentry
      exact ⟨exp, rfl⟩

/-- What each call amounts to. -/
theorem preallocate_moves (s : Resources) (params : Params) :
    Moves orders s (.preallocate params) (s.preallocate orders params).1 := by
  unfold preallocate generateAllocation
  cases hall : s.allocateAll orders params with
  | error e => exact quiet_refl _
  | ok alloc => exact .pend rfl (by simp) (.preallocated hall) (live_keep (s.issue _ params) _)

theorem allocate_moves (s : Resources) (params : Params) :
    Moves orders s (.allocate params) (s.allocate orders params).1 := by
  unfold allocate generateAllocation
  cases hall : s.allocateAll orders params with
  | error e => exact quiet_refl _
  | ok alloc => exact .send rfl (.allocated hall)

theorem premodify_moves (s : Resources) (id : String) (params : Params) :
    Moves orders s (.premodify id params) (s.premodify orders id params).1 := by
  unfold premodify generateAllocationChange
  cases hlookup : s.getConfirmed.lookup id with
  | none => exact quiet_refl _
  | some a =>
    cases hall : s.modifyAll orders a params with
    | error e =>
      simp only [hall]
      exact quiet_refl _
    | ok deltas =>
      simp only [hall]
      exact .pend rfl (by simp) (.premodified hlookup hall) (live_keep (s.issue _ params) _)

theorem confirm_moves (s : Resources) (id : String) :
    Moves orders s (.confirm id) (s.confirm orders id).1 := by
  obtain ⟨hstate, hresult⟩ := pop_cases orders s.modifications s.now id
  have hquiet : Moves orders s (.confirm id)
      { s with modifications := (s.modifications.pop orders.names s.now id (some none)).1 } := by
    refine .quiet (le_refl s.now) (fun id' item hitem => ?_)
    rw [hstate] at hitem
    split at hitem
    · cases hitem
    · exact hitem
  unfold confirm
  simp only
  split
  · rename_i entry hentry
    obtain ⟨exp, hlive⟩ := hresult entry hentry
    exact .take rfl hlive hstate (by rw [hlive]; rfl)
  · split
    · exact hquiet
    · exact hquiet

theorem release_moves (s : Resources) (id : String) :
    Moves orders s (.release id) (s.release orders id).1 := by
  obtain ⟨d, hget, hsame⟩ := getItem_spec orders.names s.modifications s.now id
  unfold release
  simp only [hget]
  split
  · rename_i a hlookup
    exact .remove rfl hlookup hsame
  · -- `del` meets the entry that `in` has found
    obtain ⟨d', hget', hsame'⟩ := getItem_spec orders.names d s.now id
    simp only [ExpDict.step, hget']
    refine .quiet (le_refl s.now) (fun id' item hitem => ?_)
    have hout : live s.now d'.items id' = some item := by
      split at hitem
      · have herase : live s.now (d'.items.erase id) id' = some item := hitem
        rw [live_erase] at herase
        split at herase
        · cases herase
        · exact herase
      · exact hitem
    rw [hsame', hsame] at hout
    exact hout
  · refine .quiet (le_refl s.now) (fun id' item hitem => ?_)
    rw [← hsame]
    exact hitem

theorem define_moves (s : Resources) (name : String) (factory : Factory) :
    Moves orders s (.define name factory) (s.define name factory).1 := by
  unfold define
  split
  · rename_i definition hbuild
    exact .define rfl hbuild
  · exact quiet_refl _

theorem agentStep_moves {event : Event} {agentEvent : AgencyAgent.Event Update String Error}
    (hevent : event.ofAgent = some agentEvent) (h : s.agentStep orders agentEvent = some t) :
    Moves orders s event t := by
  obtain ⟨agent, hagent, rfl⟩ := Option.map_eq_some_iff.mp h
  exact .agent hevent hagent

/-- Every event does one of these things. -/
theorem step_cases {event : Event} (h : s.step orders event = some t) :
    Moves orders s event t := by
  cases event with
  | tick now =>
    simp only [step] at h
    split at h
    · rename_i hnow
      cases h
      refine .quiet hnow (fun id item hitem => ?_)
      rw [live_later hnow] at hitem
      exact (Option.filter_eq_some_iff.mp hitem).1
    · cases h
  | define name factory =>
    cases h
    exact define_moves s name factory
  | preallocate params =>
    cases h
    exact preallocate_moves s params
  | allocate params =>
    cases h
    exact allocate_moves s params
  | premodify id params =>
    cases h
    exact premodify_moves s id params
  | confirm id =>
    cases h
    exact confirm_moves s id
  | release id =>
    cases h
    exact release_moves s id
  | run => exact agentStep_moves rfl h
  | saved k rev => exact agentStep_moves rfl h
  | failed k error => exact agentStep_moves rfl h
  | next => exact agentStep_moves rfl h

/-! ## Definitions -/

/-- If the event defines the resource, then as this. -/
def DefinedAs (name : String) (definition : Definition) : Event → Prop
  | .define n factory => n = name → ∀ d ∈ factory.build.toOption, d = definition
  | _ => True

instance (name : String) (definition : Definition) :
    (event : Event) → Decidable (DefinedAs name definition event)
  | .define _ _ => inferInstanceAs (Decidable (_ → _))
  | .tick _ | .preallocate _ | .allocate _ | .premodify _ _ | .confirm _ | .release _ | .run
  | .saved _ _ | .failed _ _ | .next => inferInstanceAs (Decidable True)

/-- A definition stays what it is, unless it is made anew. -/
theorem definitions_step {name : String} {event : Event} {definition : Definition}
    (hstep : s.step orders event = some t) (hevent : DefinedAs name definition event)
    (h : ∀ d, s.definitions.lookup name = some d → d = definition) :
    ∀ d, t.definitions.lookup name = some d → d = definition := by
  cases step_cases hstep with
  | @define n factory d' hdef hbuild =>
    intro d hd
    by_cases hname : name = n
    · subst hname
      rw [AList.lookup_insert] at hd
      cases hd
      rw [hdef] at hevent
      exact hevent rfl d' (by rw [hbuild]; rfl)
    · rw [AList.lookup_insert_ne hname] at hd
      exact h d hd
  | quiet => exact h
  | pend => exact h
  | send => exact h
  | take => exact h
  | remove => exact h
  | agent => exact h

/-! ## Requests -/

/-- What an allocation is made of: for every resource asked for, what its definition allocates. -/
theorem allocateAll_lookup {params : Params} {alloc : Dict String Amount}
    (h : s.allocateAll orders params = .ok alloc) (name : String) :
    (params.lookup name = none ∧ alloc.lookup name = none) ∨
      ∃ args definition amount, params.lookup name = some args ∧
        s.definitions.lookup name = some definition ∧
        definition.allocate name (s.getAllocated orders name) args = .ok amount ∧
        alloc.lookup name = some amount := by
  -- the two steps of the body as one
  let one (name : String) (args : List Param) : Except Error Amount :=
    (s.getDefinition name).bind fun definition =>
      definition.allocate name (s.getAllocated orders name) args
  have hloop : (Dict.items orders.names params).foldlM (fun (t : Dict String Amount) p => do
      return t.insert p.1 (← one p.1 p.2)) ∅ = .ok alloc := by
    rw [← h]
    unfold allocateAll
    congr 1
    funext t p
    show ((s.getDefinition p.1).bind _).bind _ = (s.getDefinition p.1).bind _
    cases s.getDefinition p.1 <;> rfl
  rcases Dict.lookup_foldlM_insert (f := one) hloop name with hnone | ⟨args, amount, hargs, hone, halloc⟩
  · exact Or.inl hnone
  · right
    simp only [one, getDefinition] at hone
    split at hone
    · rename_i definition hdef
      exact ⟨args, definition, amount, hargs, hdef, hone, halloc⟩
    · cases hone

/-- What a change is made of: for every resource named, what its definition modifies. -/
theorem modifyAll_lookup {a : Allocation} {params : Params} {deltas : Dict String Amount}
    (h : s.modifyAll orders a params = .ok deltas) (name : String) :
    (params.lookup name = none ∧ deltas.lookup name = none) ∨
      ∃ args definition delta, params.lookup name = some args ∧
        s.definitions.lookup name = some definition ∧
        definition.modify name (s.getAllocated orders name) (a.alloc.lookup name) args = .ok delta ∧
        deltas.lookup name = some delta := by
  let one (name : String) (args : List Param) : Except Error Amount :=
    (s.getDefinition name).bind fun definition =>
      definition.modify name (s.getAllocated orders name) (a.alloc.lookup name) args
  have hloop : (Dict.items orders.names params).foldlM (fun (t : Dict String Amount) p => do
      return t.insert p.1 (← one p.1 p.2)) ∅ = .ok deltas := by
    rw [← h]
    unfold modifyAll
    congr 1
    funext t p
    show ((s.getDefinition p.1).bind _).bind _ = (s.getDefinition p.1).bind _
    cases s.getDefinition p.1 <;> rfl
  rcases Dict.lookup_foldlM_insert (f := one) hloop name with hnone | ⟨args, delta, hargs, hone, hdelta⟩
  · exact Or.inl hnone
  · right
    simp only [one, getDefinition] at hone
    split at hone
    · rename_i definition hdef
      exact ⟨args, definition, delta, hargs, hdef, hone, hdelta⟩
    · cases hone

/-- What is allocated is confirmed or pending. -/
theorem mem_getAllocated {name : String} {amount : Amount} :
    amount ∈ s.getAllocated orders name ↔
      (∃ id a, s.getConfirmed.lookup id = some a ∧ a.alloc.lookup name = some amount) ∨
      ∃ id exp entry, s.pending.lookup id = some ⟨exp, some entry⟩ ∧
        entry.allocatedFor name = some amount := by
  unfold getAllocated modified
  rw [List.mem_filterMap]
  simp only [List.mem_append, List.mem_map, List.mem_filterMap, Dict.mem_values, lookup_pending]
  constructor
  · rintro ⟨entry, ⟨a, ⟨id, hid⟩, rfl⟩ | ⟨⟨id, exp, value⟩, hitem, rfl⟩, hamount⟩
    · exact Or.inl ⟨id, a, hid, hamount⟩
    · exact Or.inr ⟨id, exp, entry, mem_liveItems.mp hitem, hamount⟩
  · rintro (⟨id, a, hid, hamount⟩ | ⟨id, exp, entry, hlive, hamount⟩)
    · exact ⟨.allocation a, Or.inl ⟨a, ⟨id, hid⟩, rfl⟩, hamount⟩
    · exact ⟨entry, Or.inr ⟨(id, ⟨exp, some entry⟩), mem_liveItems.mpr hlive, rfl⟩, hamount⟩

/-! ## The agent -/

/-- The updates of the descriptor are run one after the other. -/
def Updating (orders : Orders) (desc : Descriptor) (s : Resources) : Prop :=
  AgencyAgent.UpdateInv (exec orders) Descriptor.withRev desc s.agent

/-- A new update is put at the end of those in flight. -/
theorem send_spec {desc : Descriptor} (h : Updating orders desc s) (update : Update) :
    (s.send update).1.inFlight = s.inFlight ++ [(s.agent.calls.length, update)] ∧
      (s.send update).1.agent.descriptor = s.agent.descriptor ∧
      (s.send update).1.agent.fired = s.agent.fired ∧
      (s.send update).1.committed = s.committed ∧
      (s.send update).1.agent.calls = s.agent.calls ++ [update] ∧
      Updating orders desc (s.send update).1 := by
  have hcall : s.agent.step (exec orders) Descriptor.withRev (.call update) =
      some (s.send update).1.agent := rfl
  have hupdating := AgencyAgent.step_updates h hcall
  cases AgencyAgent.step_moves h hcall with
  | call _ hflight hdesc hfired hcommitted hcalls =>
    exact ⟨hflight, hdesc, hfired, hcommitted, hcalls, hupdating⟩
  | stay hflight _ _ _ hcalls =>
    have hlength := congrArg List.length hcalls
    rw [show (s.send update).1.agent.calls = s.agent.calls ++ [update] by
      show (AgencyAgent.nextUpdate _).calls = _
      rw [(AgencyAgent.nextUpdate_moves _).2.2.2.2]] at hlength
    simp at hlength
  | fail _ _ _ _ _ hwhy =>
    rcases hwhy with ⟨hrun, _⟩ | ⟨⟨k, hfailed⟩, _⟩
    · cases hrun
    · cases hfailed

/-- An event of the agent is not a call. -/
theorem ofAgent_ne_call {event : Event} {agentEvent : AgencyAgent.Event Update String Error}
    (h : event.ofAgent = some agentEvent) (update : Update) : agentEvent ≠ .call update := by
  cases event <;> simp [Event.ofAgent] at h <;> subst h <;> simp

end Resources

/-! ## Changes -/

section Changes
variable {orders : Orders} {a a' : Allocation} {change : AllocationChange} {name : String}

/-- What is left of a resource when a delta is added to it, if anything. -/
def added (orders : Orders) (current : Option Amount) (delta : Amount) : Option Amount :=
  match (current.getD delta.zero).add orders delta with
  | .ok (amount, true) => some amount
  | _ => none

theorem lookup_widen (orders : Orders) (a : Allocation) (change : AllocationChange)
    (name : String) : (a.widen orders change).lookup name =
      (a.alloc.lookup name).or ((change.deltas.lookup name).map Amount.zero) :=
  Dict.lookup_foldl_default a.alloc name

/-- Applying a change adds every delta, and nothing else. -/
theorem apply_lookup (h : a.apply orders change = .ok a') (name : String) :
    a'.alloc.lookup name = match change.deltas.lookup name with
      | none => a.alloc.lookup name
      | some delta => added orders (a.alloc.lookup name) delta := by
  unfold Allocation.apply at h
  cases hfold : (Dict.items orders.names (a.widen orders change)).foldlM
      (applyDelta orders change.deltas) (a.widen orders change) with
  | error e =>
    simp only [hfold] at h
    cases h
  | ok alloc =>
    simp only [hfold] at h
    cases h
    have hlookup := Dict.lookup_foldlM_items (g := fun name amount =>
      match change.deltas.lookup name with
      | none => some amount
      | some delta => match amount.add orders delta with
        | .ok (amount, true) => some amount
        | _ => none) ?_ hfold name
    · show alloc.lookup name = _
      rw [hlookup, lookup_widen]
      cases hdelta : change.deltas.lookup name with
      | none => cases a.alloc.lookup name <;> simp
      | some delta => cases ha : a.alloc.lookup name <;> simp [added]
    · rintro t ⟨k, amount⟩ t' hk hbody k'
      unfold applyDelta at hbody
      cases hdelta : change.deltas.lookup k with
      | none =>
        simp only [hdelta] at hbody ⊢
        cases hbody
        split
        · rename_i heq
          rw [heq]
          exact hk
        · rfl
      | some delta =>
        simp only [hdelta] at hbody ⊢
        cases hadd : amount.add orders delta with
        | error e =>
          simp only [hadd] at hbody
          cases hbody
        | ok r =>
          obtain ⟨amount', nonzero⟩ := r
          simp only [hadd] at hbody
          cases hbody
          cases nonzero with
          | true =>
            by_cases heq : k' = k
            · subst heq
              simp
            · simp [heq, AList.lookup_insert_ne heq]
          | false =>
            by_cases heq : k' = k
            · subst heq
              simp
            · simp [heq, AList.lookup_erase_ne heq]

theorem apply_id (h : a.apply orders change = .ok a') : a'.id = a.id := by
  unfold Allocation.apply at h
  cases hfold : (Dict.items orders.names (a.widen orders change)).foldlM
      (applyDelta orders change.deltas) (a.widen orders change) with
  | error e =>
    simp only [hfold] at h
    cases h
  | ok alloc =>
    simp only [hfold] at h
    cases h
    rfl

/-- A change can be applied if and only if every delta can be added. -/
theorem apply_isOk_iff : (∃ a', a.apply orders change = .ok a') ↔
    ∀ name delta, change.deltas.lookup name = some delta →
      ∃ r, ((a.alloc.lookup name).getD delta.zero).add orders delta = .ok r := by
  have hfold : (∃ a', a.apply orders change = .ok a') ↔
      ∃ t, (Dict.items orders.names (a.widen orders change)).foldlM
        (applyDelta orders change.deltas) (a.widen orders change) = .ok t := by
    unfold Allocation.apply
    cases hfold : (Dict.items orders.names (a.widen orders change)).foldlM
        (applyDelta orders change.deltas) (a.widen orders change) with
    | error e =>
      simp only [hfold]
      simp [bind, Except.bind]
    | ok alloc =>
      simp only [hfold]
      simp [bind, Except.bind, pure, Except.pure]
  rw [hfold, Dict.foldlM_items_isOk_iff (fun name amount =>
    ∀ delta, change.deltas.lookup name = some delta → ∃ r, amount.add orders delta = .ok r)]
  · constructor
    · intro h name delta hdelta
      refine h name _ ?_ delta hdelta
      rw [lookup_widen, hdelta]
      cases a.alloc.lookup name <;> rfl
    · intro h name amount hamount delta hdelta
      rw [lookup_widen, hdelta] at hamount
      have hone := h name delta hdelta
      cases ha : a.alloc.lookup name with
      | none =>
        rw [ha] at hamount hone
        cases hamount
        exact hone
      | some current =>
        rw [ha] at hamount hone
        cases hamount
        exact hone
  · rintro t ⟨k, amount⟩
    unfold applyDelta
    cases hdelta : change.deltas.lookup k with
    | none => simp
    | some delta =>
      cases hadd : amount.add orders delta with
      | error e => simp [hadd, bind, Except.bind]
      | ok r =>
        obtain ⟨amount', nonzero⟩ := r
        cases nonzero <;> simp [hadd, bind, Except.bind, pure, Except.pure]

end Changes

end Feat.Agents
