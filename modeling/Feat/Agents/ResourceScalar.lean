import Mathlib.Algebra.GroupWithZero.Nat
import Feat.Agents.ResourceAccount

/- Whether a scalar resource is over-committed.

   `allocate` and `premodify` check an amount against what is confirmed and what is
   pending. An allocation that `allocate` or `confirm` has sent to the descriptor is
   neither until its update is saved: a second request meanwhile is given the same
   units again (`two_allocates_overcommit`).

   Where every amount that fits beside what is confirmed and pending fits beside what
   is in flight too (`RoomInFlight`), what is confirmed never adds up to more than the
   total, and every confirmed value is positive (`never_overcommitted`). -/
namespace Feat.Agents
open Hash Feat.Common Feat.Agencies Transition

/-- The units an amount counts for: none where it is negative. -/
def units : Amount → ℕ
  | .scalar v => v.toNat
  | .range _ => 0

/-- What is held of a scalar resource stays positive. -/
theorem held_add_scalar (orders : Orders) (current delta amount : Amount)
    (hcurrent : current = delta.zero ∨ ∃ v, current = .scalar v ∧ 0 < v)
    (hdelta : ∃ v, delta = .scalar v) (hadd : current.add orders delta = .ok (amount, true)) :
    ∃ v, amount = .scalar v ∧ 0 < v := by
  obtain ⟨d, rfl⟩ := hdelta
  have hscalar : ∃ v, current = .scalar v := by
    rcases hcurrent with rfl | ⟨v, rfl, _⟩
    · exact ⟨0, rfl⟩
    · exact ⟨v, rfl⟩
  obtain ⟨v, rfl⟩ := hscalar
  simp only [Amount.add] at hadd
  split at hadd
  · cases hadd
  · rename_i hneg
    simp only [Except.ok.injEq, Prod.mk.injEq, decide_eq_true_eq] at hadd
    exact ⟨v + d, hadd.1.symm, by omega⟩

/-- The gauge of a scalar resource. -/
def scalarGauge : Gauge ℕ where
  held amount := ∃ v, amount = .scalar v ∧ 0 < v
  change delta := ∃ v, delta = .scalar v
  weight := units
  gain := units
  held_add := held_add_scalar
  weight_zero delta := by cases delta <;> simp [Amount.zero, units]
  weight_add := by
    intro orders current delta amount nonzero hadd
    cases current with
    | range s =>
      cases delta with
      | scalar d => cases hadd
      | range d =>
        simp only [Amount.add] at hadd
        cases hfold : (orders.values.arrange d.elems).foldlM addSigned s with
        | error e =>
          simp only [hfold] at hadd
          cases hadd
        | ok r =>
          simp only [hfold] at hadd
          cases hadd
          simp [units]
    | scalar v =>
      cases delta with
      | range d => cases hadd
      | scalar d =>
        simp only [Amount.add] at hadd
        split at hadd
        · cases hadd
        · simp only [Except.ok.injEq, Prod.mk.injEq] at hadd
          rw [← hadd.1]
          show (v + d).toNat ≤ v.toNat + d.toNat
          omega

/-! ## What is promised, and when -/

/-- The sum of the values confirmed for a resource. -/
def confirmedSum (name : String) (allocations : Dict String Allocation) : ℤ :=
  Dict.total (fun a => match a.alloc.lookup name with
    | some (.scalar v) => v
    | _ => 0) allocations

/-- No more than the total is confirmed, all of it in positive values. -/
structure NotOvercommitted (name : String) (total : ℕ) (allocations : Dict String Allocation) :
    Prop where
  positive : ∀ id a amount, allocations.lookup id = some a → a.alloc.lookup name = some amount →
    ∃ v, amount = .scalar v ∧ 0 < v
  within : confirmedSum name allocations ≤ total

/-- The amount of a scalar resource that a request asks for. -/
def asked (name : String) (params : Params) : Option ℤ :=
  match params.lookup name with
  | some [param] => param.toInt.toOption
  | _ => none

/-- The units that are confirmed or pending, which is what a request is checked against. -/
def unitsSeen (name : String) (s : Resources) : ℕ :=
  scalarGauge.confirmedTotal name s.getConfirmed + scalarGauge.pendingTotal name s

/-- The units that updates in flight are going to add. -/
def unitsInFlight (name : String) (s : Resources) : ℕ := scalarGauge.flightTotal name s.inFlight

/-- Where a positive amount is asked for that fits beside what is confirmed and pending, it fits
beside what is in flight too. -/
def RoomInFlight (name : String) (total : ℕ) (s : Resources) (event : Resources.Event) : Prop :=
  ∀ v ∈ event.params.bind (asked name), 0 < v → unitsSeen name s + v ≤ total →
    unitsSeen name s + unitsInFlight name s + v ≤ total

instance (name : String) (total : ℕ) (s : Resources) (event : Resources.Event) :
    Decidable (RoomInFlight name total s event) :=
  inferInstanceAs (Decidable (∀ v ∈ event.params.bind (asked name), _ → _ → _))

/-! ## The account -/

section Account
variable {orders : Orders} {name : String} {total : ℕ} {desc : Descriptor} {s t : Resources}

/-- Adding up what is allocated counts the units. -/
theorem reduce_units {allocations : List Amount} {r : ℤ}
    (h : Scalar.reduce allocations = .ok r) : r = (allocations.map units).sum := by
  unfold Scalar.reduce at h
  cases hmap : allocations.mapM Amount.getValue with
  | error e =>
    simp only [hmap] at h
    cases h
  | ok values =>
    simp only [hmap] at h
    cases h
    induction allocations generalizing values with
    | nil =>
      cases hmap
      simp
    | cons a allocations ih =>
      rw [List.mapM_cons] at hmap
      cases a with
      | range s => cases hmap
      | scalar v =>
        cases hrest : allocations.mapM Amount.getValue with
        | error e =>
          rw [hrest] at hmap
          cases hmap
        | ok rest =>
          rw [hrest] at hmap
          cases hmap
          have htail := ih rest hrest
          simp only [List.map_cons, List.sum_cons, units]
          omega

/-- What a request is checked against is what is confirmed and pending. -/
theorem reduce_seen {r : ℤ} (h : Scalar.reduce (s.getAllocated orders name) = .ok r) :
    r = unitsSeen name s := by
  rw [reduce_units h, Gauge.sum_getAllocated units]
  congr 1
  unfold unitsSeen
  congr 1
  apply congrArg (Dict.total · s.pending)
  funext item
  show _ = (item.value.map (scalarGauge.gainOf name)).getD 0
  cases item.value with
  | none => rfl
  | some entry => cases entry <;> rfl

/-- An amount that passes the check fits beside what is confirmed and pending. -/
theorem within_spec {scalar : Scalar} {value : ℤ} {amount : Amount}
    (h : scalar.within name (s.getAllocated orders name) value = .ok amount) :
    amount = .scalar value ∧ unitsSeen name s + value ≤ scalar.total := by
  unfold Scalar.within at h
  cases hreduce : Scalar.reduce (s.getAllocated orders name) with
  | error e =>
    simp only [hreduce] at h
    cases h
  | ok r =>
    simp only [hreduce, bind, Except.bind] at h
    split at h
    · cases h
    · rename_i hle
      cases h
      rw [reduce_seen hreduce] at hle
      exact ⟨rfl, by omega⟩

theorem allocate_spec {scalar : Scalar} {args : List Param} {amount : Amount}
    (h : scalar.allocate name (s.getAllocated orders name) args = .ok amount) :
    ∃ param value, args = [param] ∧ param.toInt = .ok value ∧ 0 < value ∧
      amount = .scalar value ∧ unitsSeen name s + value ≤ scalar.total := by
  unfold Scalar.allocate at h
  split at h
  · rename_i param
    split at h
    · cases h
    · rename_i value hvalue
      split at h
      · cases h
      · rename_i hpos
        obtain ⟨hamount, hroom⟩ := within_spec h
        exact ⟨param, value, rfl, hvalue, by omega, hamount, hroom⟩
  · cases h

theorem modify_spec {scalar : Scalar} {args : List Param} {resource : Option Amount}
    {delta : Amount}
    (h : scalar.modify name (s.getAllocated orders name) resource args = .ok delta) :
    ∃ param value, args = [param] ∧ param.toInt = .ok value ∧
      delta = .scalar value ∧ unitsSeen name s + value ≤ scalar.total := by
  unfold Scalar.modify at h
  split at h
  · rename_i param
    split at h
    · cases h
    · rename_i value hvalue
      have hwithin : scalar.within name (s.getAllocated orders name) value = .ok delta := by
        cases resource with
        | none =>
          simp only [bind, Except.bind] at h
          split at h
          · cases h
          · exact h
        | some amount =>
          simp only [bind, Except.bind] at h
          split at h
          · cases h
          · split at h
            · cases h
            · exact h
      obtain ⟨hdelta, hroom⟩ := within_spec hwithin
      exact ⟨param, value, rfl, hvalue, hdelta, hroom⟩
  · cases h

/-- An amount that is asked for and passes the check leaves the account within the total. -/
theorem room_of_asked {event : Resources.Event} {params : Params} {param : Param} {value : ℤ}
    (hroom : RoomInFlight name total s event) (hparams : event.params = some params)
    (hargs : params.lookup name = some [param]) (hvalue : param.toInt = .ok value)
    (hseen : unitsSeen name s + value ≤ total) (haccount : scalarGauge.account name s ≤ total) :
    scalarGauge.account name s + value.toNat ≤ total := by
  have hsplit : scalarGauge.account name s = unitsSeen name s + unitsInFlight name s := by
    simp [Gauge.account, unitsSeen, unitsInFlight]
  have hasked : value ∈ event.params.bind (asked name) := by
    simp [hparams, asked, hargs, hvalue, Except.toOption]
  by_cases hpos : 0 < value
  · have hfits := hroom value hasked hpos hseen
    omega
  · omega

/-- The entries that requests create are of the right kind, and there is room for them. -/
theorem generated_room {event : Resources.Event} {entry : Entry}
    (hdefined : ∀ d, s.definitions.lookup name = some d → d = .scalar ⟨total⟩)
    (hroom : RoomInFlight name total s event) (haccount : scalarGauge.account name s ≤ total)
    (hgenerated : Resources.Generated orders s event entry) :
    scalarGauge.Fits name entry ∧
      scalarGauge.account name s + scalarGauge.gainOf name entry ≤ total := by
  have halloc : ∀ params alloc, event.params = some params →
      s.allocateAll orders params = .ok alloc → ∀ id,
      scalarGauge.Fits name (.allocation ⟨id, alloc⟩) ∧
        scalarGauge.account name s + scalarGauge.gainOf name (.allocation ⟨id, alloc⟩) ≤ total := by
    intro params alloc hparams hall id
    rcases Resources.allocateAll_lookup hall name with ⟨_, hnone⟩ |
      ⟨args, definition, amount, hargs, hdef, hallocate, hlookup⟩
    · constructor
      · intro amount hamount
        rw [hnone] at hamount
        cases hamount
      · simpa [Gauge.gainOf, Gauge.weightOf, hnone] using haccount
    · rw [hdefined definition hdef] at hallocate
      obtain ⟨param, value, rfl, hvalue, hpos, rfl, hseen⟩ := allocate_spec hallocate
      constructor
      · intro amount hamount
        rw [hlookup] at hamount
        cases hamount
        exact ⟨value, rfl, hpos⟩
      · have hfits := room_of_asked hroom hparams hargs hvalue hseen haccount
        simpa [Gauge.gainOf, Gauge.weightOf, hlookup, scalarGauge, units] using hfits
  cases hgenerated with
  | preallocated hall => exact halloc _ _ rfl hall _
  | allocated hall => exact halloc _ _ rfl hall _
  | @premodified id params a deltas _ hall =>
    rcases Resources.modifyAll_lookup hall name with ⟨_, hnone⟩ |
      ⟨args, definition, delta, hargs, hdef, hmodify, hlookup⟩
    · constructor
      · intro delta hdelta
        rw [hnone] at hdelta
        cases hdelta
      · simpa [Gauge.gainOf, hnone] using haccount
    · rw [hdefined definition hdef] at hmodify
      obtain ⟨param, value, rfl, hvalue, rfl, hseen⟩ := modify_spec hmodify
      constructor
      · intro delta hdelta
        rw [hlookup] at hdelta
        cases hdelta
        exact ⟨value, rfl⟩
      · have hfits := room_of_asked hroom rfl hargs hvalue hseen haccount
        simpa [Gauge.gainOf, hlookup, scalarGauge, units] using hfits

/-- What holds in every state: the resource is defined as it should be, amounts are of the right
kind, and the account is within the total. -/
structure ScalarInv (orders : Orders) (desc : Descriptor) (name : String) (total : ℕ)
    (s : Resources) : Prop where
  defined : ∀ d, s.definitions.lookup name = some d → d = .scalar ⟨total⟩
  kept : scalarGauge.Kept name orders desc s
  within : scalarGauge.account name s ≤ total

theorem step_scalar {event : Resources.Event} (hinv : ScalarInv orders desc name total s)
    (hevent : Resources.DefinedAs name (.scalar ⟨total⟩) event) (hroom : RoomInFlight name total s event)
    (hstep : s.step orders event = some t) : ScalarInv orders desc name total t := by
  obtain ⟨hkept, hwithin⟩ := Gauge.step_account (P := fun m => m ≤ total)
    (fun m m' hle hm => le_trans hle hm) hstep hinv.kept hinv.within
    (fun entry hgenerated => generated_room hinv.defined hroom hinv.within hgenerated)
  exact ⟨Resources.definitions_step hstep hevent hinv.defined, hkept, hwithin⟩

/-- Positive values add up to what their units add up to. -/
theorem confirmedSum_eq {allocations : Dict String Allocation}
    (h : ∀ id a amount, allocations.lookup id = some a → a.alloc.lookup name = some amount →
      ∃ v, amount = .scalar v ∧ 0 < v) :
    confirmedSum name allocations = scalarGauge.confirmedTotal name allocations := by
  have hentries : ∀ e ∈ allocations.entries, ∀ amount, e.2.alloc.lookup name = some amount →
      ∃ v, amount = .scalar v ∧ 0 < v :=
    fun e he amount => h e.1 e.2 amount (AList.mem_lookup_iff.mpr he)
  unfold confirmedSum Gauge.confirmedTotal Dict.total
  generalize allocations.entries = l at hentries
  induction l with
  | nil => rfl
  | cons e l ih =>
    have htail := ih (fun e' he' => hentries e' (List.mem_cons_of_mem _ he'))
    have hhead := hentries e List.mem_cons_self
    simp only [List.map_cons, List.sum_cons, htail]
    cases hlookup : e.2.alloc.lookup name with
    | none => simp [Gauge.weightOf, hlookup]
    | some amount =>
      obtain ⟨v, rfl, hpos⟩ := hhead amount hlookup
      simp only [Gauge.weightOf, hlookup, Option.map_some, Option.getD_some, scalarGauge, units]
      omega

theorem ScalarInv.notOvercommitted (h : ScalarInv orders desc name total s) :
    NotOvercommitted name total s.getConfirmed := by
  have hpositive : ∀ id a amount, s.getConfirmed.lookup id = some a →
      a.alloc.lookup name = some amount → ∃ v, amount = .scalar v ∧ 0 < v :=
    fun id a amount hid hamount => h.kept.confirmed id a hid amount hamount
  refine ⟨hpositive, ?_⟩
  rw [confirmedSum_eq hpositive]
  have hle : scalarGauge.confirmedTotal name s.getConfirmed ≤ scalarGauge.account name s := by
    unfold Gauge.account
    omega
  exact_mod_cast le_trans hle h.within

theorem new_scalar (now : ℚ) (h : NotOvercommitted name total desc.allocations) :
    ScalarInv orders desc name total (Resources.new now desc) := by
  have hpending : ∀ id, (Resources.new now desc).pending.lookup id = none := by
    intro id
    rw [Resources.lookup_pending]
    rfl
  refine ⟨fun d hd => (by cases hd), ⟨?_, ?_, ?_, AgencyAgent.new_updates⟩, ?_⟩
  · exact fun id a hid amount hamount => h.positive id a amount hid hamount
  · intro id exp entry hid
    rw [hpending] at hid
    cases hid
  · intro u hu
    cases hu
  · have hzero : scalarGauge.account name (Resources.new now desc) =
        scalarGauge.confirmedTotal name desc.allocations := by
      show scalarGauge.confirmedTotal name desc.allocations + 0 + 0 = _
      omega
    rw [hzero]
    have hwithin := h.within
    rw [confirmedSum_eq h.positive] at hwithin
    exact_mod_cast hwithin

end Account

/-! ## Runs -/

/-- The steps in which the resource is not redefined and the amounts asked for fit beside what is in
flight. -/
def ScalarStep (orders : Orders) (name : String) (total : ℕ) :
    Resources → Resources.Event → Resources → Prop :=
  Guarded (fun s event => Resources.DefinedAs name (.scalar ⟨total⟩) event ∧ RoomInFlight name total s event)
    (Defined (Resources.step orders))

/-- As long as amounts that are given out fit beside what is in flight, no more than the total is
confirmed, all of it in positive values. -/
theorem never_overcommitted {orders : Orders} {name : String} {total : ℕ} {now : ℚ}
    {desc : Descriptor} {events : List Resources.Event} {s : Resources}
    (hstart : NotOvercommitted name total desc.allocations)
    (hrun : Run (ScalarStep orders name total) (.new now desc) events s) :
    NotOvercommitted name total s.getConfirmed :=
  have hinv : ScalarInv orders desc name total s :=
    hrun.preserves (fun _ _ _ h hstep => step_scalar h hstep.1.1 hstep.1.2 hstep.2)
      (new_scalar now hstart)
  hinv.notOvercommitted

/-- An allocation, one that is pending until it is confirmed, and a change of the first. -/
theorem never_overcommitted_changed :
    let orders : Orders := ⟨.stored, .stored⟩
    let params (v : ℤ) : Params := Dict.ofList [("cpu", [.int v])]
    let desc : Descriptor := ⟨"1-a", Dict.ofList [("a", ⟨"a", Dict.ofList [("cpu", .scalar 2)]⟩)]⟩
    let events : List Resources.Event :=
      [.define "cpu" (.scalar (.int 10)), .allocate (params 5), .run, .saved 0 "2-b", .run,
        .next, .preallocate (params 3), .confirm "2", .premodify "1" (params (-4)), .run,
        .saved 0 "3-c", .run, .next, .confirm "3", .run, .saved 0 "4-d"]
    ∃ s, Run (ScalarStep orders "cpu" 10) (.new 0 desc) events s ∧
      confirmedSum "cpu" s.getConfirmed = 6 ∧ NotOvercommitted "cpu" 10 s.getConfirmed := by
  intro orders params desc events
  have hstart : NotOvercommitted "cpu" 10 desc.allocations := by
    refine ⟨fun id a amount hid hamount => ?_, by decide⟩
    have hmem : (id, a) ∈ [("a", Allocation.mk "a" (Dict.ofList [("cpu", Amount.scalar 2)]))] :=
      Dict.mem_of_lookup_ofList hid
    cases List.mem_singleton.mp hmem
    have hmem' : ("cpu", amount) ∈ [("cpu", Amount.scalar 2)] := Dict.mem_of_lookup_ofList hamount
    cases List.mem_singleton.mp hmem'
    exact ⟨2, rfl, by omega⟩
  have hend : ((events.foldlM (checked (fun s event =>
      Resources.DefinedAs "cpu" (.scalar ⟨10⟩) event ∧ RoomInFlight "cpu" 10 s event) (Resources.step orders))
      (.new 0 desc)).map fun s => confirmedSum "cpu" s.getConfirmed) = some 6 := by decide +kernel
  obtain ⟨s, hs, hsum⟩ := Option.map_eq_some_iff.mp hend
  have hrun := run_checked hs
  exact ⟨s, hrun, hsum, never_overcommitted hstart hrun⟩

/-- The second of two allocations is given the units of the first, which has not been saved. -/
theorem two_allocates_overcommit :
    let orders : Orders := ⟨.stored, .stored⟩
    let params : Params := Dict.ofList [("cpu", [.int 6])]
    let desc : Descriptor := ⟨"1-a", ∅⟩
    let events : List Resources.Event :=
      [.define "cpu" (.scalar (.int 10)), .allocate params, .allocate params, .run, .saved 0 "2-b",
        .run, .next, .run, .saved 0 "3-c"]
    NotOvercommitted "cpu" 10 desc.allocations ∧
      (∀ event ∈ events, Resources.DefinedAs "cpu" (.scalar ⟨10⟩) event) ∧
      ∃ s, Run (Defined (Resources.step orders)) (.new 0 desc) events s ∧
        ¬ NotOvercommitted "cpu" 10 s.getConfirmed := by
  intro orders params desc events
  have hend : ((events.foldlM (Resources.step orders) (.new 0 desc)).map fun s =>
      confirmedSum "cpu" s.getConfirmed) = some 12 := by decide +kernel
  obtain ⟨s, hs, hsum⟩ := Option.map_eq_some_iff.mp hend
  refine ⟨⟨fun id a amount hid => (by cases hid), by decide⟩, by decide, s, run_defined hs, ?_⟩
  intro h
  have hwithin := h.within
  rw [hsum] at hwithin
  omega

end Feat.Agents
