import Feat.Agents.ResourceRange
import Feat.Agents.ResourceScalar
import Feat.Lib.Fallible

/- From a confirmed allocation to a requested one (`feat.agents.base.resource`:
   `Resources.get_allocation_delta`, `AllocatedRange.get_delta`,
   `AllocatedScalar.get_delta`), by `premodify` with the delta and `confirm`.

   Each resource goes its own way (`outcome`): the delta is made by the amount that
   is held, the change by the definition, and the change is added to what is held.
   For a scalar the way ends at the amount that was requested (`scalar_outcome`).
   For a range it does when the range grows, unless the value 0 is picked, which
   the change cannot carry. When it shrinks the delta is ('release', n) with the
   number of values to release, and `Range.modify` takes n for the value to
   release: this is right only for one value, the value 1 (`range_outcome_iff`).
   The whole delta leads to the request exactly when every range of it does
   (`delta_leads_iff`). -/
namespace Feat.Agents
open Hash Expiring Feat.Common Feat.Agencies

/-! ## The delta -/

/-- What `get_delta` returns: the parameter or the parameters of `modify`. -/
inductive Delta where
  | amount (value : ℤ)
  | command (cmd : String) (number : ℤ)
  | none
  deriving DecidableEq

/-- `if delta`. -/
def Delta.truthy : Delta → Bool
  | .amount value => value ≠ 0
  | .command _ _ => true
  | .none => false

/-- The parameters as they reach `modify`. For `Range.modify` a `None` is, like an integer, a
parameter that is no command. -/
def Delta.args : Delta → List Param
  | .amount value => [.int value]
  | .command cmd number => [.str cmd, .int number]
  | .none => [.int 0]

/-- `get_delta`. -/
def Amount.getDelta : Amount → ℤ → Delta
  | .scalar current, value => .amount (value - current)
  | .range held, values =>
    let delta := held.elems.length - values
    if delta > 0 then .command "release" delta
    else if delta < 0 then .command "add" (-delta)
    else .none

/-- `extract_init_arguments`. -/
def Amount.extractInitArguments : Amount → ℤ
  | .scalar value => value
  | .range values => values.elems.length

/-- `zero`. -/
def Definition.zero : Definition → Amount
  | .range _ => .range .empty
  | .scalar _ => .scalar 0

/-- `get_allocation_delta`. -/
def Resources.getAllocationDelta (orders : Orders) (s : Resources) (allocationId : String)
    (resource : Dict String ℕ) : Except Error (Dict String Delta) :=
  match s.getConfirmed.lookup allocationId with
  | none => .error (.allocationNotFound allocationId)
  | some alloc => do
    let deltas ← (Dict.items orders.names resource).foldlM (fun (deltas : Dict String Delta) p => do
      let definition ← s.getDefinition p.1
      let delta := ((alloc.alloc.lookup p.1).getD definition.zero).getDelta p.2
      return if delta.truthy then deltas.insert p.1 delta else deltas) ∅
    (Dict.items orders.names alloc.alloc).foldlM (fun (deltas : Dict String Delta) p =>
      if (resource.lookup p.1).isSome then return deltas
      else do
        let definition ← s.getDefinition p.1
        return deltas.insert p.1 (p.2.getDelta definition.zero.extractInitArguments)) deltas

/-! ## What is promised, and when -/

/-- How much there is of a resource. -/
def Amount.size : Amount → ℤ
  | .scalar value => value
  | .range values => values.elems.length

/-- A resource is held as it was requested, or not at all when it was not. -/
def AsRequested (want : Option ℕ) (held : Option Amount) : Prop :=
  match want with
  | some number => (held.map Amount.size).getD 0 = number
  | none => held = none

/-- The delta leads to the request: it can be made, `premodify` makes a change of it, `confirm`
calls the update, and the update succeeds on every descriptor in which the allocation is as it was
and leaves what was requested. -/
def LeadsTo (orders : Orders) (s : Resources) (id : String) (requested : Dict String ℕ) : Prop :=
  ∃ deltas s₁ c s₂ no, s.getAllocationDelta orders id requested = .ok deltas ∧
    s.premodify orders id (Dict.map Delta.args deltas) = (s₁, .entry (.change c)) ∧
    s₁.confirm orders c.id = (s₂, .deferred no) ∧
    s₂.agent.calls[no]? = some (.applyModification c) ∧
    ∀ desc : Descriptor, desc.allocations.lookup id = s.getConfirmed.lookup id →
      ∃ desc' a', exec orders (.applyModification c) desc = .ok (desc', some a') ∧
        desc'.allocations.lookup id = some a' ∧
        ∀ name, AsRequested (requested.lookup name) (a'.alloc.lookup name)

/-- The amount is one of the definition's kind. -/
def Definition.Suits : Definition → Amount → Prop
  | .scalar _, .scalar _ | .range _, .range _ => True
  | _, _ => False

/-- There is room for the amount that is wanted in the place of what is held. -/
def Definition.Room (allocations : List Amount) (held : Option Amount) (want : ℕ) :
    Definition → Prop
  | .scalar s =>
    ((allocations.map units).sum : ℤ) + want ≤ s.total + (held.map Amount.size).getD 0
  | .range r => (want : ℤ) ≤
    (held.map Amount.size).getD 0 + (r.bounds.filter fun v => ¬ included allocations v).length

/-- A request that there is enough free capacity for: its resources and those of the allocation
are defined, amounts are of the kind of their definition, and what is requested fits. -/
structure Requestable (orders : Orders) (s : Resources) (a : Allocation)
    (requested : Dict String ℕ) : Prop where
  defined : ∀ name, (requested.lookup name).isSome ∨ (a.alloc.lookup name).isSome →
    ∃ definition, s.definitions.lookup name = some definition
  suits : ∀ name definition, s.definitions.lookup name = some definition →
    ∀ amount ∈ s.getAllocated orders name, definition.Suits amount
  room : ∀ name definition, s.definitions.lookup name = some definition →
    (requested.lookup name).isSome ∨ (a.alloc.lookup name).isSome →
    definition.Room (s.getAllocated orders name) (a.alloc.lookup name)
      ((requested.lookup name).getD 0)

/-- The values that are held of a range. -/
def heldElems (held : Option Amount) : List ℤ := (held.map Amount.elems).getD []

/-- A range that is not requested is the value 1 alone; a range that shrinks loses one value and
holds the value 1; and where one grows, the value 0 is not free. -/
def RangeWorks (r : Range) (allocations : List Amount) (held : Option Amount) (want : Option ℕ) :
    Prop :=
  match want with
  | none => held = none ∨ heldElems held = [1]
  | some number =>
    (number < (heldElems held).length → (heldElems held).length = number + 1 ∧ 1 ∈ heldElems held) ∧
    ((heldElems held).length < number → r.first = 0 → included allocations 0 = true)

/-- Every range of the allocation or the request works. -/
def DeltaWorks (orders : Orders) (s : Resources) (a : Allocation) (requested : Dict String ℕ) :
    Prop :=
  ∀ name r, s.definitions.lookup name = some (.range r) →
    RangeWorks r (s.getAllocated orders name) (a.alloc.lookup name) (requested.lookup name)

/-! ## One resource -/

/-- The delta of one resource, if there is one. -/
def deltaOf (definition : Definition) (held : Option Amount) (want : Option ℕ) : Option Delta :=
  match want with
  | some number => some ((held.getD definition.zero).getDelta number) |>.filter Delta.truthy
  | none => held.map fun amount => amount.getDelta 0

/-- What becomes of one resource. -/
def outcome (orders : Orders) (name : String) (definition : Definition) (allocations : List Amount)
    (held : Option Amount) : Option Delta → Except Error (Option Amount)
  | none => .ok held
  | some delta => do
    let change ← definition.modify name allocations held delta.args
    let (amount, nonzero) ← (held.getD change.zero).add orders change
    return if nonzero then some amount else none

/-- The resource ends as it was requested. -/
def Arrives (orders : Orders) (name : String) (definition : Definition) (allocations : List Amount)
    (held : Option Amount) (want : Option ℕ) : Prop :=
  ∃ result, outcome orders name definition allocations held (deltaOf definition held want) =
    .ok result ∧ AsRequested want result

section One
variable {orders : Orders} {name : String} {allocations : List Amount} {held : Option Amount}
  {want : Option ℕ}

/-! ### Scalars -/

theorem reduce_scalars (h : ∀ amount ∈ allocations, ∃ v, amount = .scalar v) :
    Scalar.reduce allocations = .ok ((allocations.map units).sum : ℤ) := by
  have hok : ∃ values, allocations.mapM Amount.getValue = .ok values :=
    Fallible.exists_mapM_ok fun amount hamount => by
      obtain ⟨v, rfl⟩ := h amount hamount
      exact ⟨v, rfl⟩
  obtain ⟨values, hvalues⟩ := hok
  have hreduce : Scalar.reduce allocations = .ok (values.map fun v => max v 0).sum := by
    unfold Scalar.reduce
    rw [hvalues]
    rfl
  rw [hreduce, ← reduce_units hreduce]

/-- A scalar ends as it was requested. -/
theorem scalar_outcome {scalar : Scalar}
    (hsuits : ∀ amount ∈ allocations, (Definition.scalar scalar).Suits amount)
    (hheld : ∀ amount, held = some amount → (Definition.scalar scalar).Suits amount)
    (hroom : (Definition.scalar scalar).Room allocations held (want.getD 0)) :
    Arrives orders name (.scalar scalar) allocations held want := by
  have hreduce : Scalar.reduce allocations = .ok ((allocations.map units).sum : ℤ) := by
    refine reduce_scalars ?_
    intro amount hamount
    cases amount with
    | scalar v => exact ⟨v, rfl⟩
    | range s => exact (hsuits _ hamount).elim
  -- the delta as a change, and the change added to what is held
  have hgo : ∀ (current : ℤ) (number : ℕ), held.getD (.scalar 0) = .scalar current →
      ((allocations.map units).sum : ℤ) + number ≤ scalar.total + current →
      outcome orders name (.scalar scalar) allocations held (some (.amount (number - current))) =
        .ok (if number = 0 then none else some (.scalar number)) := by
    intro current number hcurrent hfits
    have hzero : held.getD (Amount.scalar (number - current)).zero = .scalar current := hcurrent
    have hmodify : (Definition.scalar scalar).modify name allocations held
        (Delta.amount (number - current)).args = .ok (.scalar (number - current)) := by
      have hwithin : scalar.within name allocations (number - current) =
          .ok (.scalar (number - current)) := by
        simp only [Scalar.within, hreduce, bind, Except.bind]
        rw [if_neg (by omega)]
        rfl
      simp only [Definition.modify, Scalar.modify, Delta.args, Param.toInt, bind, Except.bind]
      cases held with
      | none =>
        cases hcurrent
        rw [if_neg (by omega), hwithin]
      | some amount =>
        cases hcurrent
        simp only [Amount.getValue]
        rw [if_neg (by omega), hwithin]
    simp only [outcome, hmodify, bind, Except.bind, hzero, Amount.add]
    rw [if_neg (by omega)]
    have hsum : current + ((number : ℤ) - current) = number := by omega
    simp only [hsum, pure, Except.pure]
    by_cases hnumber : number = 0 <;> simp [hnumber]
  obtain ⟨current, hcurrent, hsize⟩ : ∃ current, held.getD (.scalar 0) = .scalar current ∧
      (held.map Amount.size).getD 0 = current := by
    cases held with
    | none => exact ⟨0, rfl, rfl⟩
    | some amount =>
      cases amount with
      | scalar v => exact ⟨v, rfl, rfl⟩
      | range s => exact (hheld _ rfl).elim
  have hfits : ((allocations.map units).sum : ℤ) + (want.getD 0 : ℕ) ≤ scalar.total + current := by
    rw [← hsize]
    exact hroom
  cases want with
  | some number =>
    rw [Option.getD_some] at hfits
    by_cases hsame : (number : ℤ) = current
    · refine ⟨held, ?_, hsize.trans hsame.symm⟩
      have hnone : deltaOf (.scalar scalar) held (some number) = none := by
        simp [deltaOf, Definition.zero, hcurrent, Amount.getDelta, Delta.truthy, Option.filter,
          hsame]
      rw [hnone]
      rfl
    · have hsome : deltaOf (.scalar scalar) held (some number) =
          some (.amount (number - current)) := by
        simp [deltaOf, Definition.zero, hcurrent, Amount.getDelta, Delta.truthy, Option.filter]
        omega
      rw [Arrives, hsome]
      refine ⟨_, hgo current number hcurrent hfits, ?_⟩
      by_cases hzero : number = 0 <;> simp [AsRequested, hzero, Amount.size]
  | none =>
    cases held with
    | none => exact ⟨none, rfl, rfl⟩
    | some amount =>
      cases hcurrent
      rw [Option.getD_none] at hfits
      exact ⟨none, hgo current 0 rfl hfits, rfl⟩

/-! ### Ranges -/

/-- What is released of a range: one value, if it is held. -/
theorem release_outcome {r : Range} {values : Values} {number : ℤ} (hpos : 0 < number) :
    outcome orders name (.range r) allocations (some (.range values))
        (some (.command "release" number)) =
      if number ∈ values.elems then
        .ok (if 1 < values.elems.length then some (.range (values.remove number)) else none)
      else .error (.declarationError (.notIncluded number values)) := by
  have hmodify : (Definition.range r).modify name allocations (some (.range values))
      (Delta.command "release" number).args = if number ∈ values.elems then
        .ok (.range (Values.empty.add (-number)))
      else .error (.declarationError (.notIncluded number values)) := by
    simp only [Definition.modify, Range.modify, Delta.args, Range.commands, Range.command,
      Range.heldValues, Amount.getValues, bind, Except.bind, pure, Except.pure]
    rw [if_neg (by decide), if_neg (by decide)]
    by_cases hin : number ∈ values.elems
    · simp only [hin, not_true_eq_false, if_false, if_true]
    · simp only [hin, not_false_eq_true, if_true, if_false]
  simp only [outcome, hmodify]
  by_cases hin : number ∈ values.elems
  · have harrange : orders.values.arrange (Values.empty.add (-number)).elems = [-number] :=
      List.perm_singleton.mp (orders.values.perm [-number])
    have hsigned : addSigned values (-number) = .ok (values.remove number) := by
      unfold addSigned
      rw [if_neg (by omega), neg_neg, if_neg (by simpa using hin)]
    have hlength : (values.remove number).elems.length = values.elems.length - 1 :=
      List.length_erase_of_mem hin
    simp only [hin, if_true, bind, Except.bind, Option.getD_some, Amount.add, harrange,
      List.foldlM_cons, List.foldlM_nil, hsigned, pure, Except.pure, hlength, decide_eq_true_eq]
    have hiff : 0 < values.elems.length - 1 ↔ 1 < values.elems.length := by omega
    simp only [hiff]
  · simp only [hin, if_false, bind, Except.bind]

/-- What is left after a release has the size that is wanted if it was the value 1. -/
theorem release_iff {r : Range} {values : Values} {number : ℤ} (hpos : 0 < number) {left : ℕ}
    (hleft : left + number = values.elems.length) :
    (∃ result, outcome orders name (.range r) allocations (some (.range values))
        (some (.command "release" number)) = .ok result ∧
      AsRequested (some left) result) ↔
    values.elems.length = left + 1 ∧ 1 ∈ values.elems := by
  rw [release_outcome hpos]
  by_cases hin : number ∈ values.elems
  · rw [if_pos hin]
    have hlength : (values.remove number).elems.length = values.elems.length - 1 :=
      List.length_erase_of_mem hin
    have hsize : (((if 1 < values.elems.length then some (Amount.range (values.remove number))
        else none).map Amount.size).getD 0) = (values.elems.length - 1 : ℕ) := by
      split
      · simp only [Option.map_some, Option.getD_some, Amount.size, hlength]
      · simp only [Option.map_none, Option.getD_none]
        omega
    simp only [Except.ok.injEq, exists_eq_left', AsRequested, hsize]
    constructor
    · intro h
      have hone : number = 1 := by omega
      exact ⟨by omega, hone ▸ hin⟩
    · rintro ⟨h, _⟩
      omega
  · rw [if_neg hin]
    refine iff_of_false ?_ ?_
    · rintro ⟨_, h, _⟩
      cases h
    rintro ⟨h, hone⟩
    have : number = 1 := by omega
    exact hin (this ▸ hone)

/-- Nothing is left of a range only where it was the value 1. -/
theorem release_all_iff {r : Range} {values : Values} (hpos : 0 < values.elems.length) :
    (∃ result, outcome orders name (.range r) allocations (some (.range values))
        (some (.command "release" values.elems.length)) = .ok result ∧ AsRequested none result) ↔
    values.elems = [1] := by
  rw [release_outcome (by omega)]
  by_cases hin : (values.elems.length : ℤ) ∈ values.elems
  · rw [if_pos hin]
    simp only [Except.ok.injEq, exists_eq_left', AsRequested]
    constructor
    · intro h
      have hone : values.elems.length = 1 := by
        by_contra hmore
        rw [if_pos (by omega)] at h
        cases h
      obtain ⟨v, hv⟩ := List.length_eq_one_iff.mp hone
      rw [hv] at hin ⊢
      simpa [eq_comm] using hin
    · intro h
      rw [h]
      rfl
  · rw [if_neg hin]
    refine iff_of_false (fun ⟨_, h, _⟩ => nomatch h) ?_
    intro h
    rw [h] at hin
    exact hin (by simp)

theorem valueFree_ranges (h : ∀ amount ∈ allocations, ∃ s, amount = .range s) (v : ℤ) :
    valueFree allocations v = .ok (! included allocations v) := by
  obtain ⟨values, hvalues⟩ : ∃ values, allocations.mapM Amount.getValues = .ok values :=
    Fallible.exists_mapM_ok fun amount hamount => by
      obtain ⟨s, rfl⟩ := h amount hamount
      exact ⟨s, rfl⟩
  have hfree : ∃ free, valueFree allocations v = .ok free := by
    unfold valueFree
    rw [hvalues]
    exact ⟨_, rfl⟩
  obtain ⟨free, hfree⟩ := hfree
  rw [hfree, valueFree_spec hfree]

theorem findFree_ranges (h : ∀ amount ∈ allocations, ∃ s, amount = .range s) (xs : List ℤ)
    (number : ℤ) : ∃ result, Range.findFree allocations xs number = .ok result := by
  induction xs generalizing number with
  | nil => exact ⟨_, rfl⟩
  | cons x xs ih =>
    unfold Range.findFree
    split
    · exact ⟨_, rfl⟩
    · rw [valueFree_ranges h x]
      simp only [bind, Except.bind]
      split
      · obtain ⟨result, hresult⟩ := ih (number - 1)
        rw [hresult]
        exact ⟨_, rfl⟩
      · exact ih number

/-- Where enough values are free the lowest of them are found. -/
theorem findFreeValues_ranges {r : Range} (h : ∀ amount ∈ allocations, ∃ s, amount = .range s)
    {number : ℤ}
    (hroom : number ≤ (r.bounds.filter fun v => ¬ included allocations v).length) :
    r.findFreeValues name allocations number = .ok (lowestFree r allocations number) := by
  obtain ⟨⟨res, left⟩, hfind⟩ := findFree_ranges h r.bounds number
  have hleft := (findFree_spec hfind).2.mpr hroom
  have hok : r.findFreeValues name allocations number = .ok res := by
    unfold Range.findFreeValues
    simp only [hfind, bind, Except.bind]
    rw [if_neg (by omega)]
    rfl
  rw [hok, (findFreeValues_spec hok).1]

/-- Values put one after the other into an empty set. -/
theorem foldl_add_perm {l : List ℤ} (hnodup : l.Nodup) :
    (l.foldl Values.add .empty).elems.Perm l := by
  refine (List.perm_ext_iff_of_nodup (l.foldl Values.add .empty).nodup hnodup).mpr ?_
  intro v
  rw [mem_foldl_add]
  simp [Values.empty]

/-- Positive values that are not held are added. -/
theorem addSigned_adds {l : List ℤ} {values : Values} (hnodup : l.Nodup)
    (hpos : ∀ v ∈ l, 0 < v) (hnew : ∀ v ∈ l, v ∉ values.elems) :
    ∃ result, l.foldlM addSigned values = .ok result ∧
      result.elems.length = values.elems.length + l.length := by
  induction l generalizing values with
  | nil => exact ⟨values, rfl, rfl⟩
  | cons x l ih =>
    obtain ⟨hx, hnodup⟩ := List.nodup_cons.mp hnodup
    have hout : x ∉ values.elems := hnew x List.mem_cons_self
    have hone : addSigned values x = .ok (values.add x) := by
      unfold addSigned
      rw [if_pos (hpos x List.mem_cons_self), if_neg hout]
    have hlength : (values.add x).elems.length = values.elems.length + 1 :=
      List.length_insert_of_not_mem hout
    obtain ⟨result, hresult, hsize⟩ := @ih (values.add x) hnodup
      (fun v hv => hpos v (List.mem_cons_of_mem _ hv)) (fun v hv hin => by
        rcases List.mem_insert_iff.mp hin with rfl | hin
        · exact hx hv
        · exact hnew v (List.mem_cons_of_mem _ hv) hin)
    refine ⟨result, ?_, ?_⟩
    · rw [List.foldlM_cons, hone]
      exact hresult
    · rw [hsize, hlength, List.length_cons]
      omega

/-- Zero has no sign: it counts as released, which it cannot be when it is not held. -/
theorem addSigned_zero {l : List ℤ} {values : Values} (hzero : 0 ∈ l) (hpos : ∀ v ∈ l, 0 ≤ v)
    (hout : 0 ∉ values.elems) (result : Values) : l.foldlM addSigned values ≠ .ok result := by
  induction l generalizing values with
  | nil => simp at hzero
  | cons x l ih =>
    intro h
    rw [List.foldlM_cons] at h
    rcases Int.lt_or_eq_of_le (hpos x List.mem_cons_self) with hx | rfl
    · have hrest : 0 ∈ l := (List.mem_cons.mp hzero).resolve_left (by omega)
      by_cases hin : x ∈ values.elems
      · rw [show addSigned values x = .error (.valueError (.alreadyIn x values)) by
          simp [addSigned, hx, hin]] at h
        cases h
      · rw [show addSigned values x = .ok (values.add x) by simp [addSigned, hx, hin]] at h
        refine ih hrest (fun v hv => hpos v (List.mem_cons_of_mem _ hv)) ?_ h
        intro hin'
        rcases List.mem_insert_iff.mp hin' with heq | hin'
        · omega
        · exact hout hin'
    · rw [show addSigned values 0 = .error (.valueError (.notIn 0 values)) by
        simp [addSigned, hout]] at h
      cases h

/-- A range grows to what is wanted, unless the value 0 is picked. -/
theorem grow_outcome {r : Range} (hranges : ∀ amount ∈ allocations, ∃ s, amount = .range s)
    {values : Values} (hheld : held.getD (.range .empty) = .range values)
    (hseen : ∀ v ∈ values.elems, included allocations v = true) {number : ℕ} (hpos : 0 < number)
    (hroom : number ≤ (r.bounds.filter fun v => ¬ included allocations v).length) :
    (∃ result, outcome orders name (.range r) allocations held
        (some (.command "add" number)) = .ok result ∧
      (result.map Amount.size).getD 0 = values.elems.length + number) ↔
    (r.first = 0 → included allocations 0 = true) := by
  generalize hpicked : lowestFree r allocations number = res
  have hmodify : (Definition.range r).modify name allocations held
      (Delta.command "add" number).args = .ok (.range (res.foldl Values.add .empty)) := by
    simp only [Definition.modify, Range.modify, Delta.args, Range.commands, Range.command, if_true]
    rw [findFreeValues_ranges hranges (by exact_mod_cast hroom), hpicked]
    rfl
  have hnodup : res.Nodup := hpicked ▸ lowestFree_nodup r allocations number
  have hlength : res.length = number := by
    rw [← hpicked, lowestFree, if_pos (by exact_mod_cast hroom), List.length_take,
      Int.toNat_natCast]
    omega
  have hfree : ∀ v ∈ res, 0 ≤ v ∧ included allocations v = false := by
    intro v hv
    obtain ⟨hhas, hout⟩ := mem_lowestFree (hpicked ▸ hv)
    exact ⟨by have := hhas.1; omega, hout⟩
  have hperm : (orders.values.arrange (res.foldl Values.add .empty).elems).Perm res :=
    (orders.values.perm _).trans (foldl_add_perm hnodup)
  have hnew : ∀ v ∈ res, v ∉ values.elems := by
    intro v hv hin
    have hout := (hfree v hv).2
    rw [hseen v hin] at hout
    cases hout
  -- the values are walked in some order and added to what is held
  have hgo : outcome orders name (.range r) allocations held (some (.command "add" number)) =
      ((orders.values.arrange (res.foldl Values.add .empty).elems).foldlM addSigned values).map
        (fun values => if 0 < values.elems.length then some (.range values) else none) := by
    simp only [outcome, hmodify, bind, Except.bind, Amount.zero, hheld, Amount.add, pure,
      Except.pure]
    cases (orders.values.arrange (res.foldl Values.add .empty).elems).foldlM addSigned values with
    | error e => rfl
    | ok result => simp [Except.map]
  rw [hgo]
  constructor
  · rintro ⟨result, hresult, _⟩ hfirst
    by_contra hzero
    have hin : (0 : ℤ) ∈ res := by
      rw [← hpicked, lowestFree, if_pos (by exact_mod_cast hroom), Int.toNat_natCast]
      have hbounds : r.bounds = 0 :: (List.range' 1 r.last).map Int.ofNat := by
        unfold Range.bounds
        rw [hfirst, Nat.sub_zero, List.range'_succ]
        rfl
      rw [hbounds, List.filter_cons_of_pos (by simpa using hzero)]
      obtain ⟨n, rfl⟩ : ∃ n, number = n + 1 := ⟨number - 1, by omega⟩
      rw [List.take_succ_cons]
      exact List.mem_cons_self
    cases hfold : (orders.values.arrange (res.foldl Values.add .empty).elems).foldlM addSigned
        values with
    | error e =>
      rw [hfold] at hresult
      cases hresult
    | ok values' =>
      exact addSigned_zero (hperm.mem_iff.mpr hin) (fun v hv => (hfree v (hperm.mem_iff.mp hv)).1)
        (hnew 0 hin) values' hfold
  · intro hzero
    have hallpos : ∀ v ∈ res, 0 < v := by
      intro v hv
      obtain ⟨hnonneg, hout⟩ := hfree v hv
      rcases Int.lt_or_eq_of_le hnonneg with hlt | rfl
      · exact hlt
      · have hfirst : r.first = 0 := by
          have := (mem_lowestFree (hpicked ▸ hv)).1.1
          omega
        rw [hzero hfirst] at hout
        cases hout
    obtain ⟨result, hresult, hsize⟩ := addSigned_adds (hperm.nodup_iff.mpr hnodup)
      (fun v hv => hallpos v (hperm.mem_iff.mp hv)) (fun v hv => hnew v (hperm.mem_iff.mp hv))
    rw [hperm.length_eq, hlength] at hsize
    refine ⟨some (.range result), ?_, ?_⟩
    · rw [hresult]
      simp only [Except.map]
      rw [if_pos (by omega)]
    · simp only [Option.map_some, Option.getD_some, Amount.size, hsize]
      push_cast
      rfl

/-- A range ends as it was requested exactly when the way it takes works. -/
theorem range_outcome_iff {r : Range} (hranges : ∀ amount ∈ allocations, ∃ s, amount = .range s)
    (hheld : ∀ amount, held = some amount → amount ∈ allocations)
    (hroom : (Definition.range r).Room allocations held (want.getD 0)) :
    Arrives orders name (.range r) allocations held want ↔ RangeWorks r allocations held want := by
  obtain ⟨values, hvalues, helems, hsize⟩ : ∃ values, held.getD (.range .empty) = .range values ∧
      heldElems held = values.elems ∧ (held.map Amount.size).getD 0 = values.elems.length := by
    cases held with
    | none => exact ⟨.empty, rfl, rfl, rfl⟩
    | some amount =>
      obtain ⟨s, rfl⟩ := hranges amount (hheld amount rfl)
      exact ⟨s, rfl, rfl, rfl⟩
  have hseen : ∀ v ∈ values.elems, included allocations v = true := by
    intro v hv
    cases held with
    | none =>
      cases hvalues
      simp [Values.empty] at hv
    | some amount =>
      cases hvalues
      exact List.any_eq_true.mpr ⟨_, hheld _ rfl, decide_eq_true hv⟩
  cases want with
  | none =>
    cases held with
    | none => exact iff_of_true ⟨none, rfl, rfl⟩ (Or.inl rfl)
    | some amount =>
      cases hvalues
      have hworks : RangeWorks r allocations (some (.range values)) none ↔ values.elems = [1] :=
        ⟨fun h => h.resolve_left nofun, Or.inr⟩
      rw [hworks]
      rcases Nat.eq_zero_or_pos values.elems.length with hempty | hpos
      · -- no delta at all comes of an empty range, and `None` is no command
        have hdelta : deltaOf (.range r) (some (.range values)) none = some .none := by
          simp [deltaOf, Amount.getDelta, hempty]
        refine iff_of_false ?_ ?_
        · rintro ⟨result, hresult, _⟩
          rw [hdelta] at hresult
          cases hresult
        · intro hone
          rw [hone] at hempty
          cases hempty
      · have hdelta : deltaOf (.range r) (some (.range values)) none =
            some (.command "release" values.elems.length) := by
          simp [deltaOf, Amount.getDelta, hpos]
        rw [Arrives, hdelta]
        exact release_all_iff hpos
  | some number =>
    have hworks : RangeWorks r allocations held (some number) ↔
        (number < values.elems.length → values.elems.length = number + 1 ∧ 1 ∈ values.elems) ∧
        (values.elems.length < number → r.first = 0 → included allocations 0 = true) := by
      rw [← helems]
      rfl
    rw [hworks]
    have hdelta : deltaOf (.range r) held (some number) =
        (some ((Amount.range values).getDelta number)).filter Delta.truthy := by
      rw [← hvalues]
      rfl
    rcases Nat.lt_trichotomy number values.elems.length with hlt | heq | hgt
    · -- only what is held shrinks
      have hsome : held = some (.range values) := by
        cases held with
        | none =>
          cases hvalues
          exact absurd hlt (Nat.not_lt_zero _)
        | some amount =>
          cases hvalues
          rfl
      have hrelease : deltaOf (.range r) held (some number) =
          some (.command "release" (values.elems.length - number)) := by
        rw [hdelta]
        simp [Amount.getDelta, Delta.truthy, Option.filter, hlt]
      rw [Arrives, hrelease, hsome]
      have hleft : (number : ℤ) + (values.elems.length - number) = values.elems.length := by omega
      refine (release_iff (by omega) hleft).trans ?_
      exact ⟨fun h => ⟨fun _ => h, fun hgt => by omega⟩, fun h => h.1 hlt⟩
    · have hnone : deltaOf (.range r) held (some number) = none := by
        rw [hdelta]
        simp [Amount.getDelta, Delta.truthy, Option.filter, heq]
      rw [Arrives, hnone]
      refine iff_of_true ⟨held, rfl, ?_⟩ ⟨fun h => by omega, fun h => by omega⟩
      rw [AsRequested, hsize, heq]
    · have hadd : deltaOf (.range r) held (some number) =
          some (.command "add" (number - values.elems.length : ℕ)) := by
        rw [hdelta]
        have hnot : ¬ ((values.elems.length : ℤ) - number > 0) := by omega
        have hneg : (values.elems.length : ℤ) - number < 0 := by omega
        have hcast : -((values.elems.length : ℤ) - number) =
            ((number - values.elems.length : ℕ) : ℤ) := by omega
        simp only [Amount.getDelta]
        rw [if_neg hnot, if_pos hneg, hcast]
        rfl
      have hgrow := @grow_outcome orders name allocations held r hranges values hvalues hseen
        (number - values.elems.length) (by omega) (by
          have : (number : ℤ) ≤ (held.map Amount.size).getD 0 +
            (r.bounds.filter fun v => ¬ included allocations v).length := hroom
          rw [hsize] at this
          omega)
      rw [Arrives, hadd]
      have hwant : ∀ result : Option Amount, AsRequested (some number) result ↔
          (result.map Amount.size).getD 0 =
            values.elems.length + ((number - values.elems.length : ℕ) : ℤ) := by
        intro result
        rw [AsRequested]
        omega
      simp only [hwant]
      refine hgrow.trans ?_
      exact ⟨fun h => ⟨fun hlt => by omega, fun _ => h⟩, fun h => h.2 hgt⟩

end One

/-! ## The whole delta -/

section Whole
variable {orders : Orders} {s : Resources} {id : String} {a : Allocation}
  {requested : Dict String ℕ}

/-- The first loop: what is requested. -/
def firstDelta (s : Resources) (a : Allocation) (name : String) (number : ℕ) :
    Except Error (Option Delta) :=
  (s.getDefinition name).map fun definition =>
    deltaOf definition (a.alloc.lookup name) (some number)

/-- The second loop: what is held and not requested. -/
def secondDelta (s : Resources) (requested : Dict String ℕ) (name : String) (amount : Amount) :
    Except Error (Option Delta) :=
  if (requested.lookup name).isSome then .ok none
  else (s.getDefinition name).map fun _ => some (amount.getDelta 0)

theorem zero_arguments (definition : Definition) :
    definition.zero.extractInitArguments = 0 := by
  cases definition <;> rfl

/-- The two loops put one delta for each name. -/
theorem getAllocationDelta_eq (hconfirmed : s.getConfirmed.lookup id = some a) :
    s.getAllocationDelta orders id requested =
      (Dict.collect orders.names (firstDelta s a) requested ∅).bind fun deltas =>
        Dict.collect orders.names (secondDelta s requested) a.alloc deltas := by
  unfold Resources.getAllocationDelta
  simp only [hconfirmed]
  have hfirst : (Dict.items orders.names requested).foldlM
      (fun (deltas : Dict String Delta) p => do
        let definition ← s.getDefinition p.1
        let delta := ((a.alloc.lookup p.1).getD definition.zero).getDelta p.2
        return if delta.truthy then deltas.insert p.1 delta else deltas) ∅ =
      Dict.collect orders.names (firstDelta s a) requested ∅ := by
    unfold Dict.collect
    congr 1
    funext t p
    unfold firstDelta deltaOf
    cases s.getDefinition p.1 with
    | error e => rfl
    | ok definition =>
      simp only [Except.map, bind, Except.bind, pure, Except.pure, Option.filter]
      split <;> rfl
  have hsecond : ∀ deltas, (Dict.items orders.names a.alloc).foldlM
      (fun (deltas : Dict String Delta) p =>
        if (requested.lookup p.1).isSome then return deltas
        else do
          let definition ← s.getDefinition p.1
          return deltas.insert p.1 (p.2.getDelta definition.zero.extractInitArguments)) deltas =
      Dict.collect orders.names (secondDelta s requested) a.alloc deltas := by
    intro deltas
    unfold Dict.collect
    congr 1
    funext t p
    unfold secondDelta
    split
    · rfl
    · cases s.getDefinition p.1 with
      | error e => rfl
      | ok definition =>
        simp only [Except.map, bind, Except.bind, zero_arguments]
  rw [hfirst]
  exact congrArg _ (funext hsecond)

/-- What the delta is made of. -/
theorem getAllocationDelta_lookup {deltas : Dict String Delta}
    (hconfirmed : s.getConfirmed.lookup id = some a)
    (h : s.getAllocationDelta orders id requested = .ok deltas) (name : String) :
    (requested.lookup name = none ∧ a.alloc.lookup name = none ∧ deltas.lookup name = none) ∨
      ∃ definition, s.definitions.lookup name = some definition ∧
        deltas.lookup name = deltaOf definition (a.alloc.lookup name) (requested.lookup name) := by
  rw [getAllocationDelta_eq hconfirmed] at h
  cases hone : Dict.collect orders.names (firstDelta s a) requested ∅ with
  | error e =>
    rw [hone] at h
    cases h
  | ok deltas₁ =>
    rw [hone] at h
    have hdefinition : ∀ {β : Type} {f : Definition → β} {b : β},
        (s.getDefinition name).map f = .ok b →
        ∃ definition, s.definitions.lookup name = some definition ∧ f definition = b := by
      intro β f b hb
      unfold Resources.getDefinition at hb
      cases hdef : s.definitions.lookup name with
      | none =>
        rw [hdef] at hb
        cases hb
      | some definition =>
        rw [hdef] at hb
        cases hb
        exact ⟨definition, rfl, rfl⟩
    rcases Dict.lookup_collect hone name with ⟨hreq, ht₁⟩ | ⟨number, r, hreq, hr, ht₁⟩
    · rw [AList.lookup_empty] at ht₁
      rcases Dict.lookup_collect h name with ⟨halloc, ht⟩ | ⟨amount, r, halloc, hr, ht⟩
      · exact Or.inl ⟨hreq, halloc, ht.trans ht₁⟩
      · right
        unfold secondDelta at hr
        rw [hreq] at hr
        obtain ⟨definition, hdef, rfl⟩ := hdefinition hr
        exact ⟨definition, hdef, by rw [ht, hreq, halloc]; rfl⟩
    · right
      obtain ⟨definition, hdef, rfl⟩ := hdefinition hr
      refine ⟨definition, hdef, ?_⟩
      rw [AList.lookup_empty, Option.or_none] at ht₁
      rcases Dict.lookup_collect h name with ⟨_, ht⟩ | ⟨amount, r, halloc, hr, ht⟩
      · rw [ht, ht₁, hreq]
      · unfold secondDelta at hr
        rw [hreq] at hr
        cases hr
        rw [ht, Option.none_or, ht₁, hreq]

theorem getAllocationDelta_isOk (hconfirmed : s.getConfirmed.lookup id = some a)
    (hdefined : ∀ name, (requested.lookup name).isSome ∨ (a.alloc.lookup name).isSome →
      ∃ definition, s.definitions.lookup name = some definition) :
    ∃ deltas, s.getAllocationDelta orders id requested = .ok deltas := by
  have hdefinition : ∀ name, (requested.lookup name).isSome ∨ (a.alloc.lookup name).isSome →
      ∃ definition, s.getDefinition name = .ok definition := by
    intro name hname
    obtain ⟨definition, hdef⟩ := hdefined name hname
    exact ⟨definition, by rw [Resources.getDefinition, hdef]⟩
  have hfirst : ∃ deltas, Dict.collect orders.names (firstDelta s a) requested ∅ = .ok deltas := by
    rw [Dict.collect_isOk_iff]
    intro name number hnumber
    obtain ⟨definition, hdef⟩ := hdefinition name (Or.inl (by rw [hnumber]; rfl))
    exact ⟨_, by rw [firstDelta, hdef]; rfl⟩
  obtain ⟨deltas₁, hone⟩ := hfirst
  rw [getAllocationDelta_eq hconfirmed, hone]
  show ∃ deltas, Dict.collect orders.names (secondDelta s requested) a.alloc deltas₁ = .ok deltas
  rw [Dict.collect_isOk_iff]
  intro name amount hamount
  obtain ⟨definition, hdef⟩ := hdefinition name (Or.inr (by rw [hamount]; rfl))
  unfold secondDelta
  split
  · exact ⟨_, rfl⟩
  · exact ⟨_, by rw [hdef]; rfl⟩

/-- `premodify` with parameters that every definition accepts keeps a change of them. -/
theorem premodify_ok (hconfirmed : s.getConfirmed.lookup id = some a) {params : Params}
    {deltas : Dict String Amount} (hall : s.modifyAll orders a params = .ok deltas) :
    s.premodify orders id params =
      ((s.issue (.change ⟨s.nextId, a.id, deltas⟩) params).keep orders
        (.change ⟨s.nextId, a.id, deltas⟩), .entry (.change ⟨s.nextId, a.id, deltas⟩)) := by
  unfold Resources.premodify Resources.generateAllocationChange
  simp only [hconfirmed, hall]
  rfl

/-- A change comes of `premodify` only if every definition accepts the parameters. -/
theorem premodify_change (hconfirmed : s.getConfirmed.lookup id = some a) {params : Params}
    {s₁ : Resources} {c : AllocationChange}
    (h : s.premodify orders id params = (s₁, .entry (.change c))) :
    c.allocationId = a.id ∧ s.modifyAll orders a params = .ok c.deltas := by
  cases hall : s.modifyAll orders a params with
  | ok deltas =>
    rw [premodify_ok hconfirmed hall] at h
    cases h
    exact ⟨rfl, rfl⟩
  | error e =>
    unfold Resources.premodify Resources.generateAllocationChange at h
    simp only [hconfirmed, hall, bind, Except.bind] at h
    split at h <;> cases h

/-- What was just kept is confirmed by calling its update. -/
theorem confirm_kept (orders : Orders) (s : Resources) (entry : Entry) :
    ∃ s₂ no, (s.keep orders entry).confirm orders entry.id = (s₂, .deferred no) ∧
      s₂.agent.calls[no]? = some entry.update := by
  have hlive : live s.now (s.keep orders entry).modifications.items entry.id = _ :=
    Resources.live_keep s entry entry.id
  rw [if_pos rfl] at hlive
  have hnow : (s.keep orders entry).now = s.now := rfl
  obtain ⟨hresult, _⟩ := pop_spec orders.names (s.keep orders entry).modifications s.now entry.id
    (some none)
  have hsome :
      ((s.keep orders entry).modifications.lazyPack orders.names s.now).items.keys ≠ [] := by
    intro hempty
    have hnone : live s.now _ entry.id = none := not_live_of_empty hempty entry.id
    rw [live_lazyPack, hlive] at hnone
    cases hnone
  rw [if_neg hsome, hlive] at hresult
  unfold Resources.confirm
  simp only [hnow]
  rw [hresult]
  refine ⟨_, _, rfl, ?_⟩
  show (AgencyAgent.nextUpdate _).calls[_]? = _
  rw [(AgencyAgent.nextUpdate_moves _).2.2.2.2]
  exact List.getElem?_concat_length

/-- The definitions are asked for the change of every resource with parameters. -/
theorem modifyAll_isOk_iff {params : Params} :
    (∃ deltas, s.modifyAll orders a params = .ok deltas) ↔
      ∀ name args, params.lookup name = some args → ∃ definition delta,
        s.definitions.lookup name = some definition ∧
        definition.modify name (s.getAllocated orders name) (a.alloc.lookup name) args =
          .ok delta := by
  unfold Resources.modifyAll
  rw [Dict.foldlM_items_isOk_iff (fun name args => ∃ definition delta,
    s.definitions.lookup name = some definition ∧
    definition.modify name (s.getAllocated orders name) (a.alloc.lookup name) args = .ok delta)]
  intro deltas p
  unfold Resources.getDefinition
  cases hdef : s.definitions.lookup p.1 with
  | none => simp [bind, Except.bind]
  | some definition =>
    simp only [bind, Except.bind, Option.some.injEq, exists_eq_left', exists_and_left]
    cases definition.modify p.1 (s.getAllocated orders p.1) (a.alloc.lookup p.1) p.2 <;>
      simp [pure, Except.pure]

/-- A resource with a delta arrives if the change is made and can be added. -/
theorem outcome_some_iff {name : String} {definition : Definition} {allocations : List Amount}
    {held : Option Amount} {delta : Delta} {P : Option Amount → Prop} :
    (∃ result, outcome orders name definition allocations held (some delta) = .ok result ∧
      P result) ↔
    ∃ change, definition.modify name allocations held delta.args = .ok change ∧
      (∃ r, (held.getD change.zero).add orders change = .ok r) ∧ P (added orders held change) := by
  simp only [outcome, added]
  cases definition.modify name allocations held delta.args with
  | error e => simp [bind, Except.bind]
  | ok change =>
    simp only [bind, Except.bind, Except.ok.injEq, exists_eq_left']
    cases (held.getD change.zero).add orders change with
    | error e => simp
    | ok r =>
      obtain ⟨amount, nonzero⟩ := r
      cases nonzero <;> simp [pure, Except.pure]

/-- What became of one resource, as its definition and the update have it. -/
theorem arrives_of_apply {deltas : Dict String Delta} {changes : Dict String Amount}
    {a' : Allocation} {name : String} {definition : Definition}
    (hdelta : deltas.lookup name =
      deltaOf definition (a.alloc.lookup name) (requested.lookup name))
    (hdef : s.definitions.lookup name = some definition)
    (hall : s.modifyAll orders a (Dict.map Delta.args deltas) = .ok changes)
    {c : AllocationChange} (hc : c.deltas = changes) (happly : a.apply orders c = .ok a') :
    Arrives orders name definition (s.getAllocated orders name) (a.alloc.lookup name)
        (requested.lookup name) ↔
      AsRequested (requested.lookup name) (a'.alloc.lookup name) := by
  have hafter := apply_lookup happly name
  rw [hc] at hafter
  rw [Arrives, ← hdelta]
  rcases Resources.modifyAll_lookup hall name with ⟨hargs, hchange⟩ |
    ⟨args, definition', change, hargs, hdef', hmodify, hchange⟩
  · rw [Dict.lookup_map, Option.map_eq_none_iff] at hargs
    rw [hargs, hafter, hchange]
    simp [outcome]
  · rw [Dict.lookup_map, Option.map_eq_some_iff] at hargs
    obtain ⟨delta, hsome, rfl⟩ := hargs
    rw [hdef] at hdef'
    cases hdef'
    have hadd := apply_isOk_iff.mp ⟨a', happly⟩ name change (hc ▸ hchange)
    rw [hsome, outcome_some_iff, hafter, hchange]
    constructor
    · rintro ⟨change', hmodify', _, h⟩
      rw [hmodify] at hmodify'
      cases hmodify'
      exact h
    · intro h
      exact ⟨change, hmodify, hadd, h⟩

/-- The delta leads to the request exactly when every resource of it arrives. -/
theorem leads_iff_arrives (hconfirmed : s.getConfirmed.lookup id = some a) (hid : a.id = id)
    (hdefined : ∀ name, (requested.lookup name).isSome ∨ (a.alloc.lookup name).isSome →
      ∃ definition, s.definitions.lookup name = some definition) :
    LeadsTo orders s id requested ↔ ∀ name definition, s.definitions.lookup name = some definition →
      Arrives orders name definition (s.getAllocated orders name) (a.alloc.lookup name)
        (requested.lookup name) := by
  obtain ⟨deltas, hdeltas⟩ : ∃ deltas, s.getAllocationDelta orders id requested = .ok deltas :=
    getAllocationDelta_isOk hconfirmed hdefined
  -- the delta of a defined resource
  have hone : ∀ name definition, s.definitions.lookup name = some definition →
      deltas.lookup name = deltaOf definition (a.alloc.lookup name) (requested.lookup name) := by
    intro name definition hdef
    rcases getAllocationDelta_lookup hconfirmed hdeltas name with ⟨hreq, halloc, hnone⟩ |
      ⟨definition', hdef', hdelta⟩
    · rw [hreq, halloc, hnone]
      rfl
    · rw [hdef] at hdef'
      cases hdef'
      exact hdelta
  constructor
  · rintro ⟨deltas', s₁, c, s₂, no, hdeltas', hpre, hconfirm, hcall, hexec⟩ name definition hdef
    rw [hdeltas] at hdeltas'
    cases hdeltas'
    obtain ⟨hcid, hall⟩ := premodify_change hconfirmed hpre
    obtain ⟨desc', a', hok, hafter, has⟩ := hexec s.agent.getDescriptor rfl
    have hlookup : s.agent.getDescriptor.allocations.lookup c.allocationId = some a := by
      rw [hcid, hid]
      exact hconfirmed
    simp only [exec, hlookup] at hok
    cases happly : a.apply orders c with
    | error e =>
      rw [happly] at hok
      cases hok
    | ok a'' =>
      rw [happly] at hok
      cases hok
      exact (arrives_of_apply (hone name definition hdef) hdef hall rfl happly).mpr (has name)
  · intro harrives
    have hdelta : ∀ name delta, deltas.lookup name = some delta → ∃ definition,
        s.definitions.lookup name = some definition ∧ ∃ change,
          definition.modify name (s.getAllocated orders name) (a.alloc.lookup name) delta.args =
            .ok change ∧
          ∃ r, ((a.alloc.lookup name).getD change.zero).add orders change = .ok r := by
      intro name delta hsome
      have hnot : ¬ deltas.lookup name = none := by
        rw [hsome]
        intro h
        cases h
      obtain ⟨definition, hdef, _⟩ :=
        (getAllocationDelta_lookup hconfirmed hdeltas name).resolve_left fun h => hnot h.2.2
      have harrive := harrives name definition hdef
      rw [Arrives, ← hone name definition hdef, hsome, outcome_some_iff] at harrive
      obtain ⟨change, hmodify, hadd, _⟩ := harrive
      exact ⟨definition, hdef, change, hmodify, hadd⟩
    obtain ⟨changes, hall⟩ : ∃ changes,
        s.modifyAll orders a (Dict.map Delta.args deltas) = .ok changes := by
      rw [modifyAll_isOk_iff]
      intro name args hargs
      rw [Dict.lookup_map, Option.map_eq_some_iff] at hargs
      obtain ⟨delta, hsome, rfl⟩ := hargs
      obtain ⟨definition, hdef, change, hmodify, _⟩ := hdelta name delta hsome
      exact ⟨definition, change, hdef, hmodify⟩
    obtain ⟨a', happly⟩ : ∃ a', a.apply orders ⟨s.nextId, a.id, changes⟩ = .ok a' := by
      rw [apply_isOk_iff]
      intro name change hchange
      rcases Resources.modifyAll_lookup hall name with ⟨_, hnone⟩ |
        ⟨args, definition, change', hargs, hdef, hmodify, hchange'⟩
      · rw [show changes.lookup name = some change from hchange] at hnone
        cases hnone
      · rw [show changes.lookup name = some change from hchange] at hchange'
        cases hchange'
        rw [Dict.lookup_map, Option.map_eq_some_iff] at hargs
        obtain ⟨delta, hsome, rfl⟩ := hargs
        obtain ⟨definition', hdef', change', hmodify', hadd⟩ := hdelta name delta hsome
        rw [hdef] at hdef'
        cases hdef'
        rw [hmodify] at hmodify'
        cases hmodify'
        exact hadd
    obtain ⟨s₂, no, hconfirm, hcall⟩ := confirm_kept orders
      (s.issue (.change ⟨s.nextId, a.id, changes⟩) (Dict.map Delta.args deltas))
      (.change ⟨s.nextId, a.id, changes⟩)
    refine ⟨deltas, _, _, s₂, no, hdeltas, premodify_ok hconfirmed hall, hconfirm, hcall, ?_⟩
    intro desc hdesc
    have hlookup : desc.allocations.lookup a.id = some a := by
      rw [hid, hdesc]
      exact hconfirmed
    refine ⟨{ desc with allocations := desc.allocations.insert a.id a' }, a', ?_, ?_, ?_⟩
    · simp only [exec, hlookup, happly]
      rfl
    · rw [← hid]
      exact AList.lookup_insert _
    · intro name
      cases hdef : s.definitions.lookup name with
      | some definition =>
        exact (arrives_of_apply (hone name definition hdef) hdef hall rfl happly).mp
          (harrives name definition hdef)
      | none =>
        -- what is not defined is neither requested nor held
        have hnot : ¬ ((requested.lookup name).isSome ∨ (a.alloc.lookup name).isSome) := by
          intro h
          obtain ⟨definition, hsome⟩ := hdefined name h
          rw [hdef] at hsome
          cases hsome
        simp only [not_or, Bool.not_eq_true, Option.isSome_eq_false_iff, Option.isNone_iff_eq_none]
          at hnot
        have hnone : changes.lookup name = none := by
          rcases Resources.modifyAll_lookup hall name with ⟨_, hnone⟩ |
            ⟨_, definition, _, _, hsome, _⟩
          · exact hnone
          · rw [hdef] at hsome
            cases hsome
        rw [hnot.1, apply_lookup happly name]
        simp only [hnone]
        exact hnot.2

/-- An allocation delta leads to the requested allocation exactly when every range that it changes
works. -/
theorem delta_leads_iff (orders : Orders) (s : Resources) (id : String) (a : Allocation)
    (requested : Dict String ℕ) (hconfirmed : s.getConfirmed.lookup id = some a) (hid : a.id = id)
    (h : Requestable orders s a requested) :
    LeadsTo orders s id requested ↔ DeltaWorks orders s a requested := by
  have hheld : ∀ name amount, a.alloc.lookup name = some amount →
      amount ∈ s.getAllocated orders name :=
    fun name amount hamount => Resources.mem_getAllocated.mpr (Or.inl ⟨id, a, hconfirmed, hamount⟩)
  have hranges : ∀ name r, s.definitions.lookup name = some (.range r) →
      ∀ amount ∈ s.getAllocated orders name, ∃ values, amount = .range values := by
    intro name r hdef amount hamount
    have hsuits := h.suits name _ hdef amount hamount
    cases amount with
    | range values => exact ⟨values, rfl⟩
    | scalar v => exact hsuits.elim
  -- a resource that is neither requested nor held
  have hneither : ∀ name, ¬ ((requested.lookup name).isSome ∨ (a.alloc.lookup name).isSome) →
      requested.lookup name = none ∧ a.alloc.lookup name = none := by
    intro name hout
    simpa only [not_or, Bool.not_eq_true, Option.isSome_eq_false_iff,
      Option.isNone_iff_eq_none] using hout
  rw [leads_iff_arrives hconfirmed hid h.defined]
  constructor
  · intro harrives name r hdef
    rcases Classical.em ((requested.lookup name).isSome ∨ (a.alloc.lookup name).isSome) with
      hin | hout
    · exact (range_outcome_iff (hranges name r hdef) (hheld name) (h.room name _ hdef hin)).mp
        (harrives name _ hdef)
    · rw [(hneither name hout).1, (hneither name hout).2]
      exact Or.inl rfl
  · intro hworks name definition hdef
    rcases Classical.em ((requested.lookup name).isSome ∨ (a.alloc.lookup name).isSome) with
      hin | hout
    · cases definition with
      | scalar scalar =>
        exact scalar_outcome (h.suits name _ hdef)
          (fun amount hamount => h.suits name _ hdef amount (hheld name amount hamount))
          (h.room name _ hdef hin)
      | range r =>
        exact (range_outcome_iff (hranges name r hdef) (hheld name) (h.room name _ hdef hin)).mpr
          (hworks name r hdef)
    · rw [(hneither name hout).1, (hneither name hout).2]
      exact ⟨none, rfl, rfl⟩

end Whole

/-! ## An agent that is started again -/

/-- An agent with ten ports that is started again with an allocation of three of them. -/
def threePorts : Resources :=
  { Resources.new 0 ⟨"1-a", Dict.ofList [("1", ⟨"1", Dict.ofList
      [("port", .range ⟨[1, 2, 3], by decide⟩)]⟩)]⟩ with
    definitions := Dict.ofList [("port", .range ⟨1, 10, by decide⟩)] }

/-- Every request for ports that are there can be met. -/
theorem threePorts_requestable {number : ℕ} (hfits : number ≤ 10) :
    Requestable ⟨.stored, .stored⟩ threePorts
      ⟨"1", Dict.ofList [("port", .range ⟨[1, 2, 3], by decide⟩)]⟩
      (Dict.ofList [("port", number)]) where
  defined := by
    intro name hname
    have hport : name = "port" := by
      rcases hname with h | h
      · obtain ⟨v, hv⟩ := Option.isSome_iff_exists.mp h
        exact congrArg Prod.fst (List.mem_singleton.mp (Dict.mem_of_lookup_ofList hv))
      · obtain ⟨v, hv⟩ := Option.isSome_iff_exists.mp h
        exact congrArg Prod.fst (List.mem_singleton.mp (Dict.mem_of_lookup_ofList hv))
    exact ⟨_, by rw [hport]; rfl⟩
  suits := by
    intro name definition hdef
    cases List.mem_singleton.mp (Dict.mem_of_lookup_ofList hdef)
    have hheld : threePorts.getAllocated ⟨.stored, .stored⟩ "port" =
        [.range ⟨[1, 2, 3], by decide⟩] := by decide +kernel
    rw [hheld]
    intro amount hamount
    cases List.mem_singleton.mp hamount
    trivial
  room := by
    intro name definition hdef _
    cases List.mem_singleton.mp (Dict.mem_of_lookup_ofList hdef)
    have hheld : threePorts.getAllocated ⟨.stored, .stored⟩ "port" =
        [.range ⟨[1, 2, 3], by decide⟩] := by decide +kernel
    have hfree : ((Range.bounds ⟨1, 10, by decide⟩).filter fun v =>
        ¬ included [.range ⟨[1, 2, 3], by decide⟩] v).length = 7 := by decide +kernel
    rw [hheld]
    show (number : ℤ) ≤ 3 + _
    rw [hfree]
    omega

/-- Five ports are requested in the place of three. -/
theorem delta_leads_grown :
    LeadsTo ⟨.stored, .stored⟩ threePorts "1" (Dict.ofList [("port", 5)]) := by
  refine (delta_leads_iff ⟨.stored, .stored⟩ threePorts "1" _ _ rfl rfl
    (threePorts_requestable (by decide))).mpr ?_
  intro name r hdef
  cases List.mem_singleton.mp (Dict.mem_of_lookup_ofList hdef)
  exact ⟨by decide, by decide⟩

/-- One port is requested in the place of three: the delta is ('release', 2), and the port 2 is
released. -/
theorem two_ports_left :
    (∃ a, threePorts.getConfirmed.lookup "1" = some a ∧
      Requestable ⟨.stored, .stored⟩ threePorts a (Dict.ofList [("port", 1)])) ∧
    ¬ LeadsTo ⟨.stored, .stored⟩ threePorts "1" (Dict.ofList [("port", 1)]) := by
  have hrequestable := @threePorts_requestable 1 (by decide)
  refine ⟨⟨_, rfl, hrequestable⟩, ?_⟩
  rw [leads_iff_arrives (a := ⟨"1", Dict.ofList [("port", .range ⟨[1, 2, 3], by decide⟩)]⟩) rfl rfl
    hrequestable.defined]
  intro h
  obtain ⟨result, hresult, has⟩ := h "port" (.range ⟨1, 10, by decide⟩) rfl
  have houtcome : outcome ⟨.stored, .stored⟩ "port" (.range ⟨1, 10, by decide⟩)
      (threePorts.getAllocated ⟨.stored, .stored⟩ "port")
      (some (.range ⟨[1, 2, 3], by decide⟩))
      (deltaOf (.range ⟨1, 10, by decide⟩) (some (.range ⟨[1, 2, 3], by decide⟩)) (some 1)) =
      .ok (some (.range ⟨[1, 3], by decide⟩)) := by decide +kernel
  cases hresult.symm.trans houtcome
  revert has
  show ¬ ((2 : ℤ) = 1)
  decide

end Feat.Agents
