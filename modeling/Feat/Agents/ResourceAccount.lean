import Mathlib.Algebra.Order.BigOperators.Group.List
import Mathlib.Tactic.Abel
import Feat.Agents.ResourceMoves

/- What a resource is used for, as an account: what the confirmed allocations hold,
   what the pending entries are going to add, and what the updates in flight are
   going to add.

   A `Gauge` says what is counted, in any ordered monoid: units of a scalar, or the
   values of a range with their multiplicity. `confirm` moves an entry from the
   pending ones to those in flight, and a save from there to the confirmed ones; a
   release, a failure or an expiration takes it out. So the account grows by no more
   than the entries that are created (`step_account`). -/
namespace Feat.Agents
open Hash Expiring Feat.Common Feat.Agencies

/-- What is counted of the amounts of one resource: how much an amount of an allocation is
(`weight`), and how much a delta adds at most (`gain`), for amounts and deltas of the right
kind. -/
structure Gauge (M : Type) [AddCommMonoid M] [PartialOrder M] where
  held : Amount → Prop
  change : Amount → Prop
  weight : Amount → M
  gain : Amount → M
  held_add : ∀ (orders : Orders) (current delta amount : Amount), current = delta.zero ∨ held current → change delta →
    current.add orders delta = .ok (amount, true) → held amount
  weight_zero : ∀ delta : Amount, weight delta.zero = 0
  weight_add : ∀ (orders : Orders) (current delta amount : Amount) (nonzero : Bool),
    current.add orders delta = .ok (amount, nonzero) → weight amount ≤ weight current + gain delta

namespace Gauge
variable {M : Type} [AddCommMonoid M] [PartialOrder M] (g : Gauge M) (name : String)

/-- How much of the resource an allocation holds. -/
def weightOf (a : Allocation) : M := ((a.alloc.lookup name).map g.weight).getD 0

/-- How much of the resource an entry is going to add. -/
def gainOf : Entry → M
  | .allocation a => g.weightOf name a
  | .change c => ((c.deltas.lookup name).map g.gain).getD 0

/-- How much of the resource an update is going to add. -/
def gainOfUpdate : Update → M
  | .append a => g.gainOf name (.allocation a)
  | .applyModification c => g.gainOf name (.change c)
  | .remove _ => 0

/-- The amounts of the entry are of the right kind. -/
def Fits : Entry → Prop
  | .allocation a => ∀ amount, a.alloc.lookup name = some amount → g.held amount
  | .change c => ∀ delta, c.deltas.lookup name = some delta → g.change delta

def FitsUpdate : Update → Prop
  | .append a => g.Fits name (.allocation a)
  | .applyModification c => g.Fits name (.change c)
  | .remove _ => True

/-- What the confirmed allocations hold. -/
def confirmedTotal (allocations : Dict String Allocation) : M :=
  Dict.total (g.weightOf name) allocations

/-- What an item of the dictionary of pending entries counts for. -/
def gainOfItem (item : ExpItem Entry) : M := (item.value.map (g.gainOf name)).getD 0

/-- What the pending entries are going to add. -/
def pendingTotal (s : Resources) : M := Dict.total (g.gainOfItem name) s.pending

/-- What the updates in flight are going to add. -/
def flightTotal (updates : List (Nat × Update)) : M :=
  (updates.map fun u => g.gainOfUpdate name u.2).sum

/-- All of it. -/
def account (s : Resources) : M :=
  g.confirmedTotal name s.getConfirmed + g.pendingTotal name s + g.flightTotal name s.inFlight

/-- All amounts are of the right kind, wherever they are. -/
structure Kept (orders : Orders) (desc : Descriptor) (s : Resources) : Prop where
  confirmed : ∀ id a, s.getConfirmed.lookup id = some a → g.Fits name (.allocation a)
  pending : ∀ id exp entry, s.pending.lookup id = some ⟨exp, some entry⟩ → g.Fits name entry
  inFlight : ∀ u ∈ s.inFlight, g.FitsUpdate name u.2
  updating : Resources.Updating orders desc s

variable {g name} {orders : Orders} {desc out : Descriptor} {s t : Resources}

theorem gainOfUpdate_entry (entry : Entry) :
    g.gainOfUpdate name entry.update = g.gainOf name entry := by
  cases entry <;> rfl

theorem fitsUpdate_entry {entry : Entry} : g.FitsUpdate name entry.update ↔ g.Fits name entry := by
  cases entry <;> exact Iff.rfl

theorem flightTotal_append (updates : List (Nat × Update)) (u : Nat × Update) :
    g.flightTotal name (updates ++ [u]) =
      g.flightTotal name updates + g.gainOfUpdate name u.2 := by
  simp [flightTotal]

theorem flightTotal_cons (u : Nat × Update) (updates : List (Nat × Update)) :
    g.flightTotal name (u :: updates) =
      g.gainOfUpdate name u.2 + g.flightTotal name updates := by
  simp [flightTotal]

/-- What applying a change leaves of the resource is of the right kind. -/
theorem apply_fits {a a' : Allocation} {change : AllocationChange}
    (ha : g.Fits name (.allocation a)) (hchange : g.Fits name (.change change))
    (h : a.apply orders change = .ok a') : g.Fits name (.allocation a') := by
  intro amount hamount
  rw [apply_lookup h] at hamount
  cases hdelta : change.deltas.lookup name with
  | none =>
    simp only [hdelta] at hamount
    exact ha amount hamount
  | some delta =>
    simp only [hdelta, added] at hamount
    split at hamount
    · rename_i amount' hadd
      cases hamount
      refine g.held_add orders _ delta amount ?_ (hchange delta hdelta) hadd
      cases hcurrent : a.alloc.lookup name with
      | none => exact Or.inl rfl
      | some current => exact Or.inr (ha current hcurrent)
    · cases hamount

/-- An update that can be done keeps the kind of what is confirmed. -/
theorem exec_fits {update : Update} {result : Option Allocation}
    (hdesc : ∀ id a, desc.allocations.lookup id = some a → g.Fits name (.allocation a))
    (hupdate : g.FitsUpdate name update) (h : exec orders update desc = .ok (out, result)) :
    ∀ id a, out.allocations.lookup id = some a → g.Fits name (.allocation a) := by
  have hinsert : ∀ (key : String) (a : Allocation), g.Fits name (.allocation a) →
      ∀ id b, (desc.allocations.insert key a).lookup id = some b → g.Fits name (.allocation b) := by
    intro key a ha id b hb
    by_cases hid : id = key
    · subst hid
      rw [AList.lookup_insert] at hb
      cases hb
      exact ha
    · rw [AList.lookup_insert_ne hid] at hb
      exact hdesc id b hb
  cases update with
  | append a =>
    cases h
    exact hinsert a.id a hupdate
  | applyModification c =>
    simp only [exec] at h
    split at h
    · cases h
    · rename_i a hlookup
      cases happly : a.apply orders c with
      | error e =>
        rw [happly] at h
        cases h
      | ok a' =>
        rw [happly] at h
        cases h
        exact hinsert c.allocationId a' (apply_fits (hdesc _ a hlookup) hupdate happly)
  | remove a =>
    simp only [exec] at h
    split at h
    · cases h
      exact hdesc
    · cases h
      intro id b hb
      by_cases hid : id = a.id
      · subst hid
        rw [AList.lookup_erase] at hb
        cases hb
      · rw [AList.lookup_erase_ne hid] at hb
        exact hdesc id b hb

/-- Sending an update adds what it is counted for. -/
theorem send_account (hkept : g.Kept name orders desc s) (update : Update)
    (hfits : g.FitsUpdate name update) :
    g.Kept name orders desc (s.send update).1 ∧
      g.account name (s.send update).1 = g.account name s + g.gainOfUpdate name update := by
  obtain ⟨hflight, hdesc, _, _, _, hupdating⟩ := Resources.send_spec hkept.updating update
  have hconfirmed : (s.send update).1.getConfirmed = s.getConfirmed :=
    congrArg Descriptor.allocations hdesc
  refine ⟨⟨?_, hkept.pending, ?_, hupdating⟩, ?_⟩
  · rw [hconfirmed]
    exact hkept.confirmed
  · rw [hflight]
    intro u hu
    rcases List.mem_append.mp hu with hu | hu
    · exact hkept.inFlight u hu
    · cases List.mem_singleton.mp hu
      exact hfits
  · have hcost : g.pendingTotal name (s.send update).1 = g.pendingTotal name s := rfl
    unfold account
    rw [hconfirmed, hflight, hcost, flightTotal_append]
    abel

/-- Pending entries that are gone, or others. -/
theorem pending_account (hkept : g.Kept name orders desc s)
    (hagent : t.agent = s.agent)
    (hpending : ∀ id exp entry, t.pending.lookup id = some ⟨exp, some entry⟩ → g.Fits name entry) :
    g.Kept name orders desc t ∧ g.account name t =
      g.confirmedTotal name s.getConfirmed + g.pendingTotal name t +
        g.flightTotal name s.inFlight := by
  have hconfirmed : t.getConfirmed = s.getConfirmed := by
    unfold Resources.getConfirmed
    rw [hagent]
  have hinFlight : t.inFlight = s.inFlight := by
    unfold Resources.inFlight
    rw [hagent]
  refine ⟨⟨?_, hpending, ?_, ?_⟩, ?_⟩
  · rw [hconfirmed]
    exact hkept.confirmed
  · rw [hinFlight]
    exact hkept.inFlight
  · show AgencyAgent.UpdateInv _ _ _ t.agent
    rw [hagent]
    exact hkept.updating
  · unfold account
    rw [hconfirmed, hinFlight]

omit [PartialOrder M] in
/-- What the code finds allocated, confirmed and pending together. -/
theorem sum_getAllocated (f : Amount → M) :
    ((s.getAllocated orders name).map f).sum =
      Dict.total (fun a => ((a.alloc.lookup name).map f).getD 0) s.getConfirmed +
        Dict.total (fun item => ((item.value.bind (Entry.allocatedFor name)).map f).getD 0)
          s.pending := by
  unfold Resources.getAllocated
  rw [Dict.sum_filterMap, List.map_append, List.sum_append, List.map_map]
  congr 1
  · exact Dict.sum_map_values orders.names _ s.getConfirmed
  · unfold Resources.modified
    rw [Dict.sum_filterMap]
    refine Eq.trans (congrArg List.sum (List.map_congr_left (fun p _ => ?_)))
      (sum_liveItems orders.names .stored _ s.now s.modifications.items)
    cases p.2.value <;> rfl

section Ordered
variable [IsOrderedAddMonoid M] [CanonicallyOrderedAdd M]

omit [IsOrderedAddMonoid M] in
theorem apply_weight {a a' : Allocation} {change : AllocationChange}
    (h : a.apply orders change = .ok a') :
    g.weightOf name a' ≤ g.weightOf name a + g.gainOf name (.change change) := by
  unfold weightOf gainOf
  rw [apply_lookup h]
  cases hdelta : change.deltas.lookup name with
  | none => simp
  | some delta =>
    simp only [hdelta, added, Option.map_some, Option.getD_some]
    split
    · rename_i amount hadd
      show g.weight amount ≤ _
      have hle := g.weight_add orders _ delta amount true hadd
      cases hcurrent : a.alloc.lookup name with
      | none => simpa [hcurrent, g.weight_zero] using hle
      | some current => simpa [hcurrent] using hle
    · exact zero_le

/-- An update that can be done adds no more than it is counted for. -/
theorem exec_weight {update : Update} {result : Option Allocation}
    (h : exec orders update desc = .ok (out, result)) :
    g.confirmedTotal name out.allocations ≤
      g.confirmedTotal name desc.allocations + g.gainOfUpdate name update := by
  unfold confirmedTotal
  cases update with
  | append a =>
    cases h
    rw [add_comm]
    exact Dict.total_insert_le (g.weightOf name) desc.allocations a.id a
  | applyModification c =>
    simp only [exec] at h
    split at h
    · cases h
    · rename_i a hlookup
      cases happly : a.apply orders c with
      | error e =>
        rw [happly] at h
        cases h
      | ok a' =>
        rw [happly] at h
        cases h
        show Dict.total _ (desc.allocations.insert c.allocationId a') ≤ _
        calc Dict.total (g.weightOf name) (desc.allocations.insert c.allocationId a')
            = g.weightOf name a' + Dict.total (g.weightOf name)
                (desc.allocations.erase c.allocationId) := Dict.total_insert _ _ _ _
          _ ≤ g.weightOf name a + g.gainOf name (.change c) + Dict.total (g.weightOf name)
                (desc.allocations.erase c.allocationId) :=
              add_le_add_left (apply_weight happly) _
          _ = g.weightOf name a + Dict.total (g.weightOf name)
                (desc.allocations.erase c.allocationId) + g.gainOf name (.change c) := by abel
          _ = Dict.total (g.weightOf name) desc.allocations + g.gainOf name (.change c) := by
              rw [Dict.total_erase hlookup]
  | remove a =>
    simp only [exec] at h
    split at h
    · cases h
      simp [gainOfUpdate]
    · cases h
      refine le_trans (Dict.total_erase_le _ desc.allocations a.id) ?_
      simp [gainOfUpdate]

/-- The events of the agent do not add to the account. -/
theorem agent_account {agentEvent : AgencyAgent.Event Update String Error} {agent : Agent}
    (hkept : g.Kept name orders desc s) (hcall : ∀ update, agentEvent ≠ .call update)
    (h : s.agent.step (exec orders) Descriptor.withRev agentEvent = some agent) :
    g.Kept name orders desc { s with agent } ∧
      g.account name { s with agent } ≤ g.account name s := by
  have hupdating : Resources.Updating orders desc { s with agent } :=
    AgencyAgent.step_updates hkept.updating h
  have hcost : g.pendingTotal name { s with agent } = g.pendingTotal name s := rfl
  cases AgencyAgent.step_moves hkept.updating h with
  | call update => exact (hcall update rfl).elim
  | stay hflight hdesc =>
    have hconfirmed : Resources.getConfirmed { s with agent } = s.getConfirmed :=
      congrArg Descriptor.allocations hdesc
    have hinFlight : Resources.inFlight { s with agent } = s.inFlight := hflight
    refine ⟨⟨?_, hkept.pending, ?_, hupdating⟩, ?_⟩
    · rw [hconfirmed]
      exact hkept.confirmed
    · rw [hinFlight]
      exact hkept.inFlight
    · unfold account
      rw [hconfirmed, hinFlight, hcost]
  | @fail _ _ no update e hflight hdesc =>
    have hconfirmed : Resources.getConfirmed { s with agent } = s.getConfirmed :=
      congrArg Descriptor.allocations hdesc
    have hinFlight : s.inFlight = (no, update) :: Resources.inFlight { s with agent } := hflight
    refine ⟨⟨?_, hkept.pending, ?_, hupdating⟩, ?_⟩
    · rw [hconfirmed]
      exact hkept.confirmed
    · intro u hu
      exact hkept.inFlight u (by rw [hinFlight]; exact List.mem_cons_of_mem _ hu)
    · unfold account
      rw [hconfirmed, hinFlight, hcost, flightTotal_cons]
      exact add_le_add_right le_add_self _
  | @commit _ k no update out result rev hflight hexec hdesc =>
    have hconfirmed : Resources.getConfirmed { s with agent } = out.allocations := by
      show agent.descriptor.allocations = _
      rw [hdesc]
      rfl
    have hinFlight : s.inFlight = (no, update) :: Resources.inFlight { s with agent } := hflight
    have hfits := hkept.inFlight (no, update) (by rw [hinFlight]; exact List.mem_cons_self)
    refine ⟨⟨?_, hkept.pending, ?_, hupdating⟩, ?_⟩
    · rw [hconfirmed]
      exact exec_fits hkept.confirmed hfits hexec
    · intro u hu
      exact hkept.inFlight u (by rw [hinFlight]; exact List.mem_cons_of_mem _ hu)
    · unfold account
      rw [hconfirmed, hinFlight, hcost, flightTotal_cons]
      calc g.confirmedTotal name out.allocations + g.pendingTotal name s +
            g.flightTotal name (Resources.inFlight { s with agent })
          ≤ g.confirmedTotal name s.getConfirmed + g.gainOfUpdate name update +
            g.pendingTotal name s + g.flightTotal name (Resources.inFlight { s with agent }) :=
            add_le_add_left (add_le_add_left (exec_weight hexec) _) _
        _ = g.confirmedTotal name s.getConfirmed + g.pendingTotal name s +
            (g.gainOfUpdate name update +
              g.flightTotal name (Resources.inFlight { s with agent })) := by abel

/-- An event adds to the account no more than the entry it creates. So a bound that leaves room
for that entry is kept. -/
theorem step_account {P : M → Prop} (hdown : ∀ m m', m ≤ m' → P m' → P m)
    {event : Resources.Event} (hstep : s.step orders event = some t)
    (hkept : g.Kept name orders desc s) (hP : P (g.account name s))
    (hentry : ∀ entry, Resources.Generated orders s event entry →
      g.Fits name entry ∧ P (g.account name s + g.gainOf name entry)) :
    g.Kept name orders desc t ∧ P (g.account name t) := by
  cases Resources.step_cases hstep with
  | define => exact ⟨⟨hkept.confirmed, hkept.pending, hkept.inFlight, hkept.updating⟩, hP⟩
  | @quiet now modifications _ hlive =>
    obtain ⟨hkept', haccount⟩ := pending_account (t := { s with now, modifications }) hkept rfl
      (fun id exp entry h => by
        rw [Resources.lookup_pending] at h
        exact hkept.pending id exp entry (by rw [Resources.lookup_pending]; exact hlive id _ h))
    refine ⟨hkept', hdown _ _ ?_ hP⟩
    rw [haccount]
    refine add_le_add_left (add_le_add_right (Dict.total_mono (fun id item h => ?_)) _) _
    rw [Resources.lookup_pending] at h ⊢
    exact hlive id item h
  | @pend entry params modifications hparams _ hgenerated hlive =>
    obtain ⟨hfits, hroom⟩ := hentry entry hgenerated
    obtain ⟨hkept', haccount⟩ := pending_account (t := { s.issue entry params with modifications })
      hkept rfl (fun id exp entry' h => by
        rw [Resources.lookup_pending] at h
        have h' := (hlive id).symm.trans h
        split at h'
        · cases h'
          exact hfits
        · exact hkept.pending id exp entry' (by rw [Resources.lookup_pending]; exact h'))
    refine ⟨hkept', hdown _ _ ?_ hroom⟩
    have htotal : g.pendingTotal name { s.issue entry params with modifications } =
        Dict.total (g.gainOfItem name)
          (s.pending.insert entry.id ⟨some (s.now + allocationTimeout), some entry⟩) := by
      apply Dict.total_congr
      intro id
      rw [Resources.lookup_pending]
      refine (hlive id).trans ?_
      split
      · rename_i hid
        rw [hid, AList.lookup_insert]
      · rename_i hid
        rw [AList.lookup_insert_ne hid, Resources.lookup_pending]
    rw [haccount, htotal]
    calc g.confirmedTotal name s.getConfirmed + Dict.total (g.gainOfItem name)
          (s.pending.insert entry.id ⟨some (s.now + allocationTimeout), some entry⟩) +
          g.flightTotal name s.inFlight
        ≤ g.confirmedTotal name s.getConfirmed + (g.gainOf name entry + g.pendingTotal name s) +
          g.flightTotal name s.inFlight :=
          add_le_add_left (add_le_add_right (Dict.total_insert_le _ _ _ _) _) _
      _ = g.account name s + g.gainOf name entry := by
          unfold account
          abel
  | @send a params _ hgenerated =>
    obtain ⟨hfits, hroom⟩ := hentry _ hgenerated
    have hissued : g.Kept name orders desc (s.issue (.allocation a) params) :=
      ⟨hkept.confirmed, hkept.pending, hkept.inFlight, hkept.updating⟩
    obtain ⟨hkept', haccount⟩ := send_account hissued (.append a) hfits
    refine ⟨hkept', ?_⟩
    rw [haccount]
    exact hroom
  | @take id exp entry modifications confirms _ hitem hlive _ =>
    have hlookup : s.pending.lookup id = some ⟨exp, some entry⟩ :=
      (Resources.lookup_pending s id).trans hitem
    obtain ⟨htaken, haccount⟩ := pending_account (t := { s with modifications, confirms }) hkept rfl
      (fun id' exp' entry' h => by
        rw [Resources.lookup_pending] at h
        have h' := (hlive id').symm.trans h
        split at h'
        · cases h'
        · exact hkept.pending id' exp' entry' (by rw [Resources.lookup_pending]; exact h'))
    obtain ⟨hkept', hsent⟩ := send_account htaken entry.update
      (fitsUpdate_entry.mpr (hkept.pending id exp entry hlookup))
    refine ⟨hkept', hdown _ _ (le_of_eq ?_) hP⟩
    have htotal : g.pendingTotal name { s with modifications, confirms } =
        Dict.total (g.gainOfItem name) (s.pending.erase id) := by
      apply Dict.total_congr
      intro id'
      rw [Resources.lookup_pending]
      refine (hlive id').trans ?_
      split
      · rename_i hid
        rw [hid, AList.lookup_erase]
      · rename_i hid
        rw [AList.lookup_erase_ne hid, Resources.lookup_pending]
    have hwhole : g.gainOf name entry + Dict.total (g.gainOfItem name) (s.pending.erase id) =
        g.pendingTotal name s := Dict.total_erase (f := g.gainOfItem name) hlookup
    rw [hsent, haccount, htotal, gainOfUpdate_entry]
    unfold account
    rw [← hwhole]
    abel
  | @remove id a modifications _ _ hlive =>
    have hsame : ∀ id, (Resources.pending { s with modifications }).lookup id =
        s.pending.lookup id := by
      intro id
      rw [Resources.lookup_pending, Resources.lookup_pending]
      exact hlive id
    obtain ⟨hquiet, haccount⟩ := pending_account (t := { s with modifications }) hkept rfl
      (fun id exp entry h => hkept.pending id exp entry ((hsame id).symm.trans h))
    obtain ⟨hkept', hsent⟩ := send_account hquiet (.remove a) trivial
    refine ⟨hkept', hdown _ _ (le_of_eq ?_) hP⟩
    have htotal : g.pendingTotal name { s with modifications } = g.pendingTotal name s :=
      Dict.total_congr hsame
    rw [hsent, haccount, htotal]
    exact add_zero _
  | agent hevent hagent =>
    obtain ⟨hkept', hle⟩ := agent_account hkept
      (Resources.ofAgent_ne_call hevent) hagent
    exact ⟨hkept', hdown _ _ hle hP⟩

end Ordered
end Gauge
end Feat.Agents
