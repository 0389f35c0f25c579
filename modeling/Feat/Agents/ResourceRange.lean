import Mathlib.Data.Multiset.OrderedMonoid
import Feat.Agents.ResourceAccount

/- Who owns the values of a range.

   An allocation is given the lowest values that no confirmed allocation and no
   pending entry includes; a change is a set of signed values, built command by
   command, in which a value that is added is positive and one that is released
   negative. What the code gets wrong lies in what it does not look at: values that
   are in flight to the descriptor, values that an earlier command of the same call has
   picked, the bounds of a specific value, and zero, which has no sign.

   `DistinctPicks` says of a step that the values it picks are none of these. Then
   every value has at most one owner, lies within the bounds, and a change adds as many
   values as were asked for (`one_owner`). -/
namespace Feat.Agents
open Hash Expiring Feat.Common Feat.Agencies Transition

/-! ## Values -/

def Amount.elems : Amount → List ℤ
  | .range values => values.elems
  | .scalar _ => []

/-- The values an amount of an allocation includes. -/
def valuesOf (amount : Amount) : Multiset ℤ := ↑amount.elems

/-- The values a delta adds. -/
def addedValues (amount : Amount) : Multiset ℤ := ↑(amount.elems.filter fun v => 0 < v)

/-- A value of the range. -/
def Range.Has (r : Range) (v : ℤ) : Prop := r.first ≤ v ∧ v ≤ r.last

instance (r : Range) (v : ℤ) : Decidable (r.Has v) := inferInstanceAs (Decidable (_ ∧ _))

theorem Range.mem_bounds {r : Range} {v : ℤ} : v ∈ r.bounds ↔ r.Has v := by
  have hordered := r.ordered
  simp only [Range.bounds, Range.Has, List.mem_map, List.mem_range'_1]
  constructor
  · rintro ⟨n, ⟨hfirst, hlast⟩, rfl⟩
    simp only [Int.ofNat_eq_natCast]
    omega
  · rintro ⟨hfirst, hlast⟩
    exact ⟨v.toNat, by omega, by simp only [Int.ofNat_eq_natCast]; omega⟩

theorem Range.bounds_nodup (r : Range) : r.bounds.Nodup := by
  unfold Range.bounds
  exact List.Nodup.map (fun _ _ h => Int.ofNat.inj h) List.nodup_range'

/-- What adding signed values one after the other leaves, where no value is both added and
released. -/
theorem addSigned_fold {l : List ℤ} {values result : Values} (hnodup : l.Nodup)
    (hsigns : ∀ v ∈ l, 0 < v → -v ∉ l) (h : l.foldlM addSigned values = .ok result) :
    (∀ v, v ∈ result.elems ↔ (v ∈ values.elems ∧ ¬ (0 ≤ v ∧ -v ∈ l)) ∨ (v ∈ l ∧ 0 < v)) ∧
      ∀ v ∈ l, 0 < v → v ∉ values.elems := by
  induction l generalizing values with
  | nil =>
    cases h
    simp
  | cons x l ih =>
    rw [List.foldlM_cons] at h
    obtain ⟨hx, hnodup⟩ := List.nodup_cons.mp hnodup
    have htail : ∀ v ∈ l, 0 < v → -v ∉ l := fun v hv hpos hin =>
      hsigns v (List.mem_cons_of_mem _ hv) hpos (List.mem_cons_of_mem _ hin)
    by_cases hpos : 0 < x
    · have hopposite : -x ∉ l := fun hin =>
        hsigns x List.mem_cons_self hpos (List.mem_cons_of_mem _ hin)
      by_cases hin : x ∈ values.elems
      · rw [show addSigned values x = .error (.valueError (.alreadyIn x values)) by
          simp [addSigned, hpos, hin]] at h
        cases h
      · rw [show addSigned values x = .ok (values.add x) by simp [addSigned, hpos, hin]] at h
        obtain ⟨hmem, hout⟩ := ih hnodup htail h
        have hadd : ∀ v, v ∈ (values.add x).elems ↔ v = x ∨ v ∈ values.elems := fun v =>
          List.mem_insert_iff
        constructor
        · intro v
          rw [hmem, hadd]
          have hsign : 0 ≤ v → -v ≠ x := by omega
          by_cases hv : v = x
          · subst hv
            simp [hopposite, hpos]
          · simp only [hv, false_or, List.mem_cons]
            grind
        · intro v hv hvpos
          rcases List.mem_cons.mp hv with rfl | hv
          · exact hin
          · intro hold
            exact hout v hv hvpos ((hadd v).mpr (Or.inr hold))
    · by_cases hin : -x ∈ values.elems
      · rw [show addSigned values x = .ok (values.remove (-x)) by simp [addSigned, hpos, hin]] at h
        obtain ⟨hmem, hout⟩ := ih hnodup htail h
        have hremove : ∀ v, v ∈ (values.remove (-x)).elems ↔ v ≠ -x ∧ v ∈ values.elems := fun v =>
          values.nodup.mem_erase_iff
        constructor
        · intro v
          rw [hmem, hremove]
          have hsign : -v = x ↔ v = -x := by omega
          have hzero : v = -x → 0 ≤ v := by omega
          have hnot : 0 < v → v ≠ x := by omega
          simp only [List.mem_cons, hsign]
          grind
        · intro v hv hvpos
          rcases List.mem_cons.mp hv with rfl | hv
          · exact (hpos hvpos).elim
          · intro hold
            refine hout v hv hvpos ((hremove v).mpr ⟨fun heq => ?_, hold⟩)
            -- a value that is released first and then added
            exact hsigns v (List.mem_cons_of_mem _ hv) hvpos
              (by rw [heq, neg_neg]; exact List.mem_cons_self)
      · rw [show addSigned values x = .error (.valueError (.notIn (-x) values)) by
          simp [addSigned, hpos, hin]] at h
        cases h

/-- Adding signed values adds the positive ones at most. -/
theorem addSigned_le {l : List ℤ} {values result : Values}
    (h : l.foldlM addSigned values = .ok result) :
    (↑result.elems : Multiset ℤ) ≤ ↑values.elems + ↑(l.filter fun v => 0 < v) := by
  induction l generalizing values with
  | nil =>
    cases h
    simp
  | cons x l ih =>
    rw [List.foldlM_cons] at h
    unfold addSigned at h
    by_cases hpos : 0 < x
    · simp only [gt_iff_lt, hpos, if_true] at h
      split at h
      · cases h
      · rename_i hin
        have hle := ih h
        have hadd : (values.add x).elems = x :: values.elems := List.insert_of_not_mem hin
        rw [hadd] at hle
        simpa [hpos, ← Multiset.cons_coe] using hle
    · simp only [gt_iff_lt, hpos, if_false] at h
      split at h
      · cases h
      · have hle := ih h
        have herase : (↑(values.remove (-x)).elems : Multiset ℤ) ≤ ↑values.elems :=
          List.erase_sublist.subperm
        simpa [hpos] using le_trans hle (add_le_add_left herase _)

/-- The gauge of a range. -/
def rangeGauge (r : Range) : Gauge (Multiset ℤ) where
  held amount := ∃ values, amount = .range values ∧ ∀ v ∈ values.elems, r.Has v
  change delta := ∃ values, delta = .range values ∧ ∀ v ∈ values.elems, 0 < v → r.Has v
  weight := valuesOf
  gain := addedValues
  held_add := by
    rintro orders current delta amount hcurrent ⟨d, rfl, hd⟩ hadd
    have hrange : ∃ values, current = .range values ∧ ∀ v ∈ values.elems, r.Has v := by
      rcases hcurrent with rfl | hheld
      · exact ⟨.empty, rfl, fun v hv => (by cases hv)⟩
      · exact hheld
    obtain ⟨values, rfl, hvalues⟩ := hrange
    simp only [Amount.add] at hadd
    cases hfold : (orders.values.arrange d.elems).foldlM addSigned values with
    | error e =>
      simp only [hfold] at hadd
      cases hadd
    | ok result =>
      simp only [hfold, bind, Except.bind, pure, Except.pure, Except.ok.injEq,
        Prod.mk.injEq] at hadd
      refine ⟨result, hadd.1.symm, fun v hv => ?_⟩
      have hmem := Multiset.mem_of_le (addSigned_le hfold) hv
      rcases Multiset.mem_add.mp hmem with hold | hnew
      · exact hvalues v hold
      · simp only [Multiset.mem_coe, List.mem_filter, HashOrder.mem_arrange,
          decide_eq_true_eq] at hnew
        exact hd v hnew.1 hnew.2
  weight_zero delta := by cases delta <;> rfl
  weight_add := by
    intro orders current delta amount nonzero hadd
    cases current with
    | scalar v =>
      cases delta with
      | range d => cases hadd
      | scalar d =>
        simp only [Amount.add] at hadd
        split at hadd
        · cases hadd
        · simp only [Except.ok.injEq, Prod.mk.injEq] at hadd
          rw [← hadd.1]
          simp [valuesOf, Amount.elems]
    | range values =>
      cases delta with
      | scalar d => cases hadd
      | range d =>
        simp only [Amount.add] at hadd
        cases hfold : (orders.values.arrange d.elems).foldlM addSigned values with
        | error e =>
          simp only [hfold] at hadd
          cases hadd
        | ok result =>
          simp only [hfold, bind, Except.bind, pure, Except.pure, Except.ok.injEq,
            Prod.mk.injEq] at hadd
          rw [← hadd.1]
          have hperm : (↑((orders.values.arrange d.elems).filter fun v => 0 < v) : Multiset ℤ) =
              ↑(d.elems.filter fun v => 0 < v) :=
            Multiset.coe_eq_coe.mpr ((orders.values.perm d.elems).filter _)
          show (↑result.elems : Multiset ℤ) ≤ ↑values.elems + ↑(d.elems.filter fun v => 0 < v)
          rw [← hperm]
          exact addSigned_le hfold

/-! ## What is promised, and when -/

/-- The value is included in one of the amounts. -/
def included (allocations : List Amount) (v : ℤ) : Bool :=
  allocations.any fun amount => v ∈ amount.elems

/-- The lowest values that are included in none of the amounts, if there are as many as asked. -/
def lowestFree (r : Range) (allocations : List Amount) (number : ℤ) : List ℤ :=
  let free := r.bounds.filter fun v => ¬ included allocations v
  if number ≤ free.length then free.take number.toNat else []

/-- The parameters of a change, each with the command it comes under. -/
def commandPairs : List Param → Option String → List (String × ℤ)
  | [], _ => []
  | .str cmd :: params, _ => commandPairs params (some cmd)
  | .int _ :: params, none => commandPairs params none
  | .int v :: params, some cmd => (cmd, v) :: commandPairs params (some cmd)

/-- The values that a command picks. -/
def picked (r : Range) (allocations : List Amount) (p : String × ℤ) : List ℤ :=
  if p.1 = "add" then lowestFree r allocations p.2
  else if p.1 = "add_specific" then (if included allocations p.2 then [] else [p.2])
  else []

/-- The values that a request picks, command by command. -/
def picks (orders : Orders) (r : Range) (name : String) (s : Resources) :
    Resources.Event → List ℤ
  | .preallocate params | .allocate params => match params.lookup name with
    | some [.int number] => lowestFree r (s.getAllocated orders name) number
    | _ => []
  | .premodify _ params => match params.lookup name with
    | some args => (commandPairs args none).flatMap (picked r (s.getAllocated orders name))
    | none => []
  | _ => []

/-- Whether the event asks for a change, in which zero has no sign. -/
def signed : Resources.Event → Bool
  | .premodify _ _ => true
  | _ => false

/-- The values picked differ from each other, lie within the bounds, are not zero in a change, and
are not those that an update in flight adds. -/
def DistinctPicks (orders : Orders) (r : Range) (name : String) (s : Resources)
    (event : Resources.Event) : Prop :=
  (picks orders r name s event).Nodup ∧ ∀ v ∈ picks orders r name s event,
    r.Has v ∧ (signed event = true → v ≠ 0) ∧ v ∉ (rangeGauge r).flightTotal name s.inFlight

instance (orders : Orders) (r : Range) (name : String) (s : Resources)
    (event : Resources.Event) : Decidable (DistinctPicks orders r name s event) :=
  inferInstanceAs (Decidable (_ ∧ ∀ v ∈ picks orders r name s event, _))

/-- Who may own a value: an allocation, or a pending entry. -/
inductive Holder where
  | confirmed (id : String)
  | pending (id : String)

/-- The allocation includes the value, or the entry is going to add it. -/
def Holds (name : String) (s : Resources) (v : ℤ) : Holder → Prop
  | .confirmed id => ∃ a amount, s.getConfirmed.lookup id = some a ∧
      a.alloc.lookup name = some amount ∧ v ∈ amount.elems
  | .pending id => ∃ exp entry amount, s.pending.lookup id = some ⟨exp, some entry⟩ ∧
      entry.allocatedFor name = some amount ∧ v ∈ amount.elems ∧
      match entry with
      | .allocation _ => True
      | .change _ => 0 < v

/-- The values of the resource in an allocation, if there is one. -/
def rangeValues (name : String) (a : Option Allocation) : List ℤ :=
  ((a.bind fun a => a.alloc.lookup name).map Amount.elems).getD []

/-- How many values a request for a change asks for. -/
def requestedCount (args : List Param) : ℕ :=
  ((commandPairs args none).map fun p =>
    if p.1 = "add" then p.2.toNat else if p.1 = "add_specific" then 1 else 0).sum

/-- The values that a request for a change asks for by name. -/
def requestedValues (args : List Param) : List ℤ :=
  ((commandPairs args none).filter fun p => p.1 = "add_specific").map Prod.snd

/-- The values after are those before and as many new ones as were asked for, among them those that
were asked for by name; what was released is not new. -/
def AddsExactly (args : List Param) (before after : List ℤ) : Prop :=
  let new := after.filter fun v => v ∉ before
  new.length = requestedCount args ∧ ∀ v ∈ requestedValues args, v ∈ new

/-- Every value has at most one owner, which is an allocation or a pending entry; all of them lie
within the bounds; and every change that was confirmed has added what was asked for. -/
structure OneOwner (r : Range) (name : String) (s : Resources) : Prop where
  owner : ∀ v h h', Holds name s v h → Holds name s v h' → h = h'
  bounds : ∀ v h, Holds name s v h → r.Has v
  exact : ∀ change params args before after, (.change change, params) ∈ s.issued →
    params.lookup name = some args → (.applyModification change, before, after) ∈ s.committed →
    AddsExactly args (rangeValues name (before.allocations.lookup change.allocationId))
      (rangeValues name (after.allocations.lookup change.allocationId))

/-- The values an agent starts with: each within the bounds, in one allocation only. -/
structure OwnedAtStart (r : Range) (name : String) (allocations : Dict String Allocation) :
    Prop where
  held : ∀ id a amount, allocations.lookup id = some a → a.alloc.lookup name = some amount →
    ∃ values, amount = .range values ∧ ∀ v ∈ values.elems, r.Has v
  owner : ((rangeGauge r).confirmedTotal name allocations).Nodup

/-! ## What requests pick -/

section Requests
variable {orders : Orders} {r : Range} {name : String} {s t : Resources} {allocations : List Amount}

theorem valueFree_spec {v : ℤ} {free : Bool} (h : valueFree allocations v = .ok free) :
    free = ! included allocations v := by
  unfold valueFree at h
  cases hmap : allocations.mapM Amount.getValues with
  | error e =>
    simp only [hmap] at h
    cases h
  | ok values =>
    simp only [hmap] at h
    cases h
    have hany : values.any (fun s => v ∈ s.elems) = included allocations v := by
      induction allocations generalizing values with
      | nil =>
        cases hmap
        rfl
      | cons a allocations ih =>
        rw [List.mapM_cons] at hmap
        cases a with
        | scalar _ => cases hmap
        | range s =>
          cases hrest : allocations.mapM Amount.getValues with
          | error e =>
            rw [hrest] at hmap
            cases hmap
          | ok rest =>
            rw [hrest] at hmap
            cases hmap
            simp only [List.any_cons, included, Amount.elems]
            congr 1
            exact ih rest hrest
    rw [hany]
    simp

/-- The loop finds the first free values, as many as are asked for. -/
theorem findFree_spec {xs : List ℤ} {number left : ℤ} {res : List ℤ}
    (h : Range.findFree allocations xs number = .ok (res, left)) :
    res = (xs.filter fun v => ¬ included allocations v).take number.toNat ∧
      (left ≤ 0 ↔ number ≤ ((xs.filter fun v => ¬ included allocations v).length : ℤ)) := by
  induction xs generalizing number res with
  | nil =>
    cases h
    simp
  | cons x xs ih =>
    unfold Range.findFree at h
    split at h
    · rename_i hdone
      cases h
      have hzero : left.toNat = 0 := by omega
      rw [hzero]
      exact ⟨rfl, by constructor <;> intro <;> omega⟩
    · rename_i hmore
      cases hfree : valueFree allocations x with
      | error e =>
        simp only [hfree] at h
        cases h
      | ok free =>
        have hspec := valueFree_spec hfree
        simp only [hfree, bind, Except.bind] at h
        cases free with
        | true =>
          simp only [if_true] at h
          cases hrest : Range.findFree allocations xs (number - 1) with
          | error e =>
            rw [hrest] at h
            cases h
          | ok p =>
            obtain ⟨res', left'⟩ := p
            rw [hrest] at h
            cases h
            obtain ⟨hres, hleft⟩ := ih hrest
            have hx : included allocations x = false := by simpa using hspec.symm
            have hsucc : number.toNat = (number - 1).toNat + 1 := by omega
            simp only [hx, List.filter_cons, Bool.false_eq_true, not_false_eq_true, decide_true,
              if_true, List.length_cons]
            rw [hsucc, List.take_succ_cons, ← hres]
            refine ⟨rfl, ?_⟩
            rw [hleft]
            push_cast
            omega
        | false =>
          have hx : included allocations x = true := by simpa using hspec.symm
          obtain ⟨hres, hleft⟩ := ih h
          simp only [hx, List.filter_cons, not_true_eq_false, decide_false, Bool.false_eq_true,
            if_false]
          exact ⟨hres, hleft⟩

theorem findFreeValues_spec {number : ℤ} {res : List ℤ}
    (h : r.findFreeValues name allocations number = .ok res) :
    res = lowestFree r allocations number ∧ res.length = number.toNat := by
  unfold Range.findFreeValues at h
  cases hfind : Range.findFree allocations r.bounds number with
  | error e =>
    simp only [hfind] at h
    cases h
  | ok p =>
    obtain ⟨res', left⟩ := p
    obtain ⟨hres, hleft⟩ := findFree_spec hfind
    simp only [hfind, bind, Except.bind] at h
    split at h
    · cases h
    · rename_i hnot
      cases h
      have henough := hleft.mp (by omega)
      unfold lowestFree
      rw [if_pos henough, hres]
      refine ⟨rfl, ?_⟩
      rw [List.length_take]
      omega

theorem lowestFree_nodup (r : Range) (allocations : List Amount) (number : ℤ) :
    (lowestFree r allocations number).Nodup := by
  unfold lowestFree
  simp only
  split
  · exact (r.bounds_nodup.filter _).sublist (List.take_sublist _ _)
  · exact List.nodup_nil

theorem mem_lowestFree {number v : ℤ} (h : v ∈ lowestFree r allocations number) :
    r.Has v ∧ included allocations v = false := by
  unfold lowestFree at h
  simp only at h
  split at h
  · have hin := List.mem_of_mem_take h
    simp only [List.mem_filter, Bool.not_eq_true, decide_eq_true_eq] at hin
    exact ⟨Range.mem_bounds.mp hin.1, hin.2⟩
  · cases h

theorem picked_add (r : Range) (allocations : List Amount) (number : ℤ) :
    picked r allocations ("add", number) = lowestFree r allocations number := rfl

theorem picked_specific (v : ℤ) (h : included allocations v = false) :
    picked r allocations ("add_specific", v) = [v] := by
  unfold picked
  rw [if_neg (show "add_specific" ≠ "add" by decide), if_pos rfl, h]
  rfl

theorem picked_other {cmd : String} (v : ℤ) (hadd : cmd ≠ "add") (hspecific : cmd ≠ "add_specific") :
    picked r allocations (cmd, v) = [] := by
  unfold picked
  rw [if_neg hadd, if_neg hspecific]

theorem mem_picked {p : String × ℤ} {v : ℤ} (h : v ∈ picked r allocations p) :
    included allocations v = false := by
  unfold picked at h
  split at h
  · exact (mem_lowestFree h).2
  · split at h
    · split at h
      · cases h
      · rename_i hfree
        cases List.mem_singleton.mp h
        simpa using hfree
    · cases h

theorem mem_foldl_add {l : List ℤ} {values : Values} {v : ℤ} :
    v ∈ (l.foldl Values.add values).elems ↔ v ∈ l ∨ v ∈ values.elems := by
  induction l generalizing values with
  | nil => simp
  | cons x l ih =>
    rw [List.foldl_cons, ih]
    show v ∈ l ∨ v ∈ values.elems.insert x ↔ _
    rw [List.mem_insert_iff, List.mem_cons]
    tauto

/-- What one command puts into the change: the values it picks, or the negative of a value that is
held. -/
theorem command_spec {resource : Option Amount} {cmd : String} {param : ℤ} {res res' : Values}
    (h : r.command name allocations resource cmd param res = .ok res') :
    (∀ v ∈ res'.elems, v ∈ res.elems ∨ v ∈ picked r allocations (cmd, param) ∨
        ∃ amount, resource = some amount ∧ -v ∈ amount.elems) ∧
      (∀ v, v ∈ res.elems ∨ v ∈ picked r allocations (cmd, param) → v ∈ res'.elems) ∧
      (picked r allocations (cmd, param)).length =
        (if cmd = "add" then param.toNat else if cmd = "add_specific" then 1 else 0) ∧
      (cmd = "add_specific" → param ∈ picked r allocations (cmd, param)) := by
  have hadded : ∀ (values : Values) (x v : ℤ), v ∈ (values.add x).elems ↔
      v = x ∨ v ∈ values.elems := fun _ _ _ => List.mem_insert_iff
  unfold Range.command at h
  by_cases hadd : cmd = "add"
  · subst hadd
    rw [if_pos rfl] at h
    cases hfind : r.findFreeValues name allocations param with
    | error e =>
      simp only [hfind] at h
      cases h
    | ok values =>
      simp only [hfind] at h
      cases h
      obtain ⟨hvalues, hlength⟩ := findFreeValues_spec hfind
      rw [picked_add, ← hvalues, if_pos rfl]
      refine ⟨fun v hv => ?_, fun v hv => ?_, hlength, fun heq => ?_⟩
      · rcases mem_foldl_add.mp hv with hv | hv
        · exact Or.inr (Or.inl hv)
        · exact Or.inl hv
      · exact mem_foldl_add.mpr hv.symm
      · exact absurd heq (by decide)
  · rw [if_neg hadd] at h
    by_cases hspecific : cmd = "add_specific"
    · subst hspecific
      rw [if_pos rfl] at h
      cases hfree : valueFree allocations param with
      | error e =>
        simp only [hfree] at h
        cases h
      | ok free =>
        have hspec := valueFree_spec hfree
        simp only [hfree, bind, Except.bind] at h
        cases free with
        | false => cases h
        | true =>
          rw [picked_specific param (by simpa using hspec.symm), if_neg (by decide), if_pos rfl]
          simp only [if_true] at h
          split at h
          · cases h
          · split at h
            · cases h
            · cases h
              refine ⟨fun v hv => ?_, fun v hv => ?_, rfl, fun _ => List.mem_singleton.mpr rfl⟩
              · rcases (hadded res param v).mp hv with hv | hv
                · exact Or.inr (Or.inl (List.mem_singleton.mpr hv))
                · exact Or.inl hv
              · rcases hv with hv | hv
                · exact (hadded res param v).mpr (Or.inr hv)
                · exact (hadded res param v).mpr (Or.inl (List.mem_singleton.mp hv))
    · rw [if_neg hspecific] at h
      rw [picked_other param hadd hspecific, if_neg hadd, if_neg hspecific]
      split at h
      · cases resource with
        | none => cases h
        | some amount =>
          cases amount with
          | scalar _ => cases h
          | range held =>
            simp only [Range.heldValues, Amount.getValues, bind, Except.bind] at h
            split at h
            · cases h
            · rename_i hheld
              cases h
              refine ⟨fun v hv => ?_, fun v hv => ?_, rfl, fun heq => absurd heq hspecific⟩
              · rcases (hadded res (-param) v).mp hv with rfl | hv
                · refine Or.inr (Or.inr ⟨_, rfl, ?_⟩)
                  rw [neg_neg]
                  exact not_not.mp hheld
                · exact Or.inl hv
              · rcases hv with hv | hv
                · exact (hadded res (-param) v).mpr (Or.inr hv)
                · cases hv
      · cases h

/-- What a list of commands puts into the change. -/
theorem commands_spec {resource : Option Amount} {args : List Param} {last : Option String}
    {res res' : Values} (h : r.commands name allocations resource args last res = .ok res') :
    (∀ v ∈ res'.elems, v ∈ res.elems ∨
        v ∈ (commandPairs args last).flatMap (picked r allocations) ∨
        ∃ amount, resource = some amount ∧ -v ∈ amount.elems) ∧
      (∀ v, v ∈ res.elems ∨ v ∈ (commandPairs args last).flatMap (picked r allocations) →
        v ∈ res'.elems) ∧
      ((commandPairs args last).flatMap (picked r allocations)).length =
        ((commandPairs args last).map fun p =>
          if p.1 = "add" then p.2.toNat else if p.1 = "add_specific" then 1 else 0).sum ∧
      ∀ p ∈ commandPairs args last, p.1 = "add_specific" →
        p.2 ∈ (commandPairs args last).flatMap (picked r allocations) := by
  induction args generalizing last res with
  | nil =>
    cases h
    refine ⟨fun v hv => Or.inl hv, fun v hv => ?_, rfl, fun p hp => (by cases hp)⟩
    rcases hv with hv | hv
    · exact hv
    · cases hv
  | cons param args ih =>
    cases param with
    | str cmd =>
      simp only [Range.commands] at h
      exact ih h
    | int v =>
      cases last with
      | none => cases h
      | some cmd =>
        simp only [Range.commands] at h
        cases hone : r.command name allocations resource cmd v res with
        | error e =>
          simp only [hone] at h
          cases h
        | ok res₁ =>
          simp only [hone] at h
          obtain ⟨hout, hin, hlength, hspecific⟩ := command_spec hone
          obtain ⟨hout', hin', hlength', hspecific'⟩ := ih h
          simp only [commandPairs, List.flatMap_cons, List.mem_append, List.length_append,
            List.map_cons, List.sum_cons, List.forall_mem_cons]
          refine ⟨fun v hv => ?_, fun v hv => ?_, by rw [hlength, hlength'], ?_, ?_⟩
          · rcases hout' v hv with hv | hv | hv
            · rcases hout v hv with hv | hv | hv
              · exact Or.inl hv
              · exact Or.inr (Or.inl (Or.inl hv))
              · exact Or.inr (Or.inr hv)
            · exact Or.inr (Or.inl (Or.inr hv))
            · exact Or.inr (Or.inr hv)
          · rcases hv with hv | hv | hv
            · exact hin' v (Or.inl (hin v (Or.inl hv)))
            · exact hin' v (Or.inl (hin v (Or.inr hv)))
            · exact hin' v (Or.inr hv)
          · exact fun hcmd => Or.inl (hspecific hcmd)
          · exact fun p hp hcmd => Or.inr (hspecific' p hp hcmd)

/-- What is picked is free. -/
theorem mem_picks {event : Resources.Event} {v : ℤ} (h : v ∈ picks orders r name s event) :
    included (s.getAllocated orders name) v = false := by
  have hlowest : ∀ params : Params, (v ∈ match params.lookup name with
      | some [.int number] => lowestFree r (s.getAllocated orders name) number
      | _ => []) → included (s.getAllocated orders name) v = false := by
    intro params hv
    split at hv
    · exact (mem_lowestFree hv).2
    · cases hv
  cases event with
  | preallocate params => exact hlowest params h
  | allocate params => exact hlowest params h
  | premodify id params =>
    simp only [picks] at h
    split at h
    · obtain ⟨p, _, hp⟩ := List.mem_flatMap.mp h
      exact mem_picked hp
    · cases h
  | _ => cases h

end Requests

/-! ## The account -/

section Account
variable {orders : Orders} {desc : Descriptor} {r : Range} {name : String} {s t : Resources}

/-- A request for a change, and the signed values that were made of it: no value is both added and
released, and those added are as many as were asked for. -/
structure Exactly (args : List Param) (values : Values) : Prop where
  signs : ∀ v ∈ values.elems, 0 < v → -v ∉ values.elems
  count : (values.elems.filter fun v => 0 < v).length = requestedCount args
  specific : ∀ v ∈ requestedValues args, 0 < v ∧ v ∈ values.elems

/-- What holds in every state: the resource is defined as it should be, amounts are of the right
kind, nothing is in the account twice, and changes were made of what was asked for. -/
structure RangeInv (orders : Orders) (desc : Descriptor) (r : Range) (name : String)
    (s : Resources) : Prop where
  defined : ∀ d, s.definitions.lookup name = some d → d = .range r
  kept : (rangeGauge r).Kept name orders desc s
  nodup : ((rangeGauge r).account name s).Nodup
  issued : ∀ change params args, (.change change, params) ∈ s.issued →
    params.lookup name = some args →
    ∃ values, change.deltas.lookup name = some (.range values) ∧ Exactly args values

theorem mem_weightOf {a : Allocation} {v : ℤ} : v ∈ (rangeGauge r).weightOf name a ↔
    ∃ amount, a.alloc.lookup name = some amount ∧ v ∈ amount.elems := by
  unfold Gauge.weightOf
  cases a.alloc.lookup name <;> simp [rangeGauge, valuesOf]

/-- What an item of the pending entries is going to add. -/
theorem mem_gainOfItem {item : ExpItem Entry} {v : ℤ} :
    v ∈ (rangeGauge r).gainOfItem name item ↔ ∃ entry amount, item.value = some entry ∧
      entry.allocatedFor name = some amount ∧ v ∈ amount.elems ∧
      match entry with
      | .allocation _ => True
      | .change _ => 0 < v := by
  unfold Gauge.gainOfItem
  cases hvalue : item.value with
  | none => simp
  | some entry =>
    cases entry with
    | allocation a =>
      show v ∈ (rangeGauge r).weightOf name a ↔ _
      rw [mem_weightOf]
      simp [Entry.allocatedFor]
    | change c =>
      cases hdelta : c.deltas.lookup name with
      | none => simp [Gauge.gainOf, Entry.allocatedFor, hdelta]
      | some delta => simp [Gauge.gainOf, Entry.allocatedFor, hdelta, rangeGauge, addedValues]

/-- What is confirmed or pending is included in what the code finds allocated. -/
theorem included_of_mem {v : ℤ} (h : v ∈ (rangeGauge r).confirmedTotal name s.getConfirmed ∨
    v ∈ (rangeGauge r).pendingTotal name s) : included (s.getAllocated orders name) v = true := by
  have hin : ∀ amount, amount ∈ s.getAllocated orders name → v ∈ amount.elems →
      included (s.getAllocated orders name) v = true := by
    intro amount hamount hv
    exact List.any_eq_true.mpr ⟨amount, hamount, by simpa using hv⟩
  rcases h with h | h
  · obtain ⟨id, a, hid, hv⟩ := Dict.mem_total.mp h
    obtain ⟨amount, hamount, hv⟩ := mem_weightOf.mp hv
    exact hin amount (Resources.mem_getAllocated.mpr (Or.inl ⟨id, a, hid, hamount⟩)) hv
  · obtain ⟨id, ⟨exp, value⟩, hid, hv⟩ := Dict.mem_total.mp h
    obtain ⟨entry, amount, hvalue, hamount, helem, _⟩ := mem_gainOfItem.mp hv
    cases hvalue
    exact hin amount (Resources.mem_getAllocated.mpr (Or.inr ⟨id, exp, entry, hid, hamount⟩))
      helem

/-- There is room for what is picked. -/
theorem picks_room {event : Resources.Event} (hnodup : ((rangeGauge r).account name s).Nodup)
    (hpicks : DistinctPicks orders r name s event) :
    ((rangeGauge r).account name s + ↑(picks orders r name s event)).Nodup := by
  refine Multiset.nodup_add.mpr ⟨hnodup, Multiset.coe_nodup.mpr hpicks.1, ?_⟩
  rw [Multiset.disjoint_left]
  intro v hin hv
  have hpicked := Multiset.mem_coe.mp hv
  rcases Multiset.mem_add.mp hin with hseen | hflight
  · have hincluded : included (s.getAllocated orders name) v = true :=
      included_of_mem (Multiset.mem_add.mp hseen)
    rw [mem_picks hpicked] at hincluded
    cases hincluded
  · exact (hpicks.2 v hpicked).2.2 hflight

/-- What an allocation of the range is made of. -/
theorem allocate_picks {args : List Param} {allocations : List Amount} {amount : Amount}
    (h : r.allocate name allocations args = .ok amount) :
    ∃ number values, args = [.int number] ∧ amount = .range values ∧
      values.elems = lowestFree r allocations number := by
  unfold Range.allocate at h
  split at h
  · rename_i number
    cases hfind : r.findFreeValues name allocations number with
    | error e =>
      simp only [hfind] at h
      cases h
    | ok res =>
      simp only [hfind] at h
      cases h
      obtain ⟨hres, _⟩ := findFreeValues_spec hfind
      refine ⟨number, _, rfl, rfl, ?_⟩
      show res.dedup = _
      rw [hres, (lowestFree_nodup r allocations number).dedup]
  · simp only [bind, Except.bind] at h
    split at h <;> cases h
  · cases h

/-- What a change of the range is made of. -/
theorem change_picks {id : String} {params : Params} {args : List Param} {a : Allocation}
    {delta : Amount} (hkept : (rangeGauge r).Kept name orders desc s)
    (hpicks : DistinctPicks orders r name s (.premodify id params))
    (hid : s.getConfirmed.lookup id = some a) (hargs : params.lookup name = some args)
    (h : r.modify name (s.getAllocated orders name) (a.alloc.lookup name) args = .ok delta) :
    ∃ values, delta = .range values ∧
      (values.elems.filter fun v => 0 < v).Perm (picks orders r name s (.premodify id params)) ∧
      Exactly args values := by
  unfold Range.modify at h
  cases hcommands : r.commands name (s.getAllocated orders name) (a.alloc.lookup name) args none
      .empty with
  | error e =>
    simp only [hcommands] at h
    cases h
  | ok values =>
    simp only [hcommands] at h
    cases h
    obtain ⟨hout, hin, hlength, hspecific⟩ := commands_spec hcommands
    have hpicked : picks orders r name s (.premodify id params) =
        (commandPairs args none).flatMap (picked r (s.getAllocated orders name)) := by
      simp only [picks, hargs]
    rw [← hpicked] at hout hin hlength hspecific
    -- a value that is held is not picked, and is not negative
    have hheld : ∀ v, (∃ amount, a.alloc.lookup name = some amount ∧ v ∈ amount.elems) →
        0 ≤ v ∧ included (s.getAllocated orders name) v = true := by
      rintro v ⟨amount, hamount, hv⟩
      refine ⟨?_, List.any_eq_true.mpr ⟨amount, Resources.mem_getAllocated.mpr
        (Or.inl ⟨id, a, hid, hamount⟩), by simpa using hv⟩⟩
      obtain ⟨held, rfl, hhas⟩ := hkept.confirmed id a hid amount hamount
      have hfirst := (hhas v hv).1
      omega
    have hpos : ∀ v ∈ picks orders r name s (.premodify id params), 0 < v := by
      intro v hv
      obtain ⟨hhas, hzero, _⟩ := hpicks.2 v hv
      have hfirst := hhas.1
      have hne := hzero rfl
      omega
    have hmem : ∀ v, v ∈ values.elems ∧ 0 < v ↔
        v ∈ picks orders r name s (.premodify id params) := by
      intro v
      constructor
      · rintro ⟨hv, hvpos⟩
        rcases hout v hv with hv | hv | hv
        · cases hv
        · exact hv
        · have hle := (hheld (-v) hv).1
          omega
      · intro hv
        exact ⟨hin v (Or.inr hv), hpos v hv⟩
    have hperm : (values.elems.filter fun v => 0 < v).Perm
        (picks orders r name s (.premodify id params)) := by
      rw [List.perm_ext_iff_of_nodup (values.nodup.filter _) hpicks.1]
      intro v
      rw [← hmem v, List.mem_filter, decide_eq_true_eq]
    refine ⟨values, rfl, hperm, ⟨?_, ?_, ?_⟩⟩
    · intro v hv hvpos hneg
      have hfree := mem_picks ((hmem v).mp ⟨hv, hvpos⟩)
      rcases hout (-v) hneg with hneg | hneg | hneg
      · cases hneg
      · have hlt := hpos (-v) hneg
        omega
      · rw [neg_neg] at hneg
        rw [(hheld v hneg).2] at hfree
        cases hfree
    · rw [hperm.length_eq, hlength]
      rfl
    · intro v hv
      obtain ⟨p, hp, rfl⟩ := List.mem_map.mp hv
      obtain ⟨hp, hcmd⟩ := List.mem_filter.mp hp
      have hin := hspecific p hp (by simpa using hcmd)
      exact ⟨hpos _ hin, ((hmem _).mpr hin).1⟩

/-- The entries that requests create are of the right kind, and there is room for them. -/
theorem generated_picks {event : Resources.Event} {entry : Entry} (hinv : RangeInv orders desc r name s)
    (hpicks : DistinctPicks orders r name s event)
    (hgenerated : Resources.Generated orders s event entry) :
    (rangeGauge r).Fits name entry ∧
      ((rangeGauge r).account name s + (rangeGauge r).gainOf name entry).Nodup := by
  have halloc : ∀ params alloc, (∀ number, params.lookup name = some [.int number] →
        picks orders r name s event = lowestFree r (s.getAllocated orders name) number) →
      s.allocateAll orders params = .ok alloc → ∀ id,
      (rangeGauge r).Fits name (.allocation ⟨id, alloc⟩) ∧ ((rangeGauge r).account name s +
        (rangeGauge r).gainOf name (.allocation ⟨id, alloc⟩)).Nodup := by
    intro params alloc hpicked hall id
    rcases Resources.allocateAll_lookup hall name with ⟨_, hnone⟩ |
      ⟨args, definition, amount, hargs, hdef, hallocate, hlookup⟩
    · constructor
      · intro amount hamount
        rw [hnone] at hamount
        cases hamount
      · simpa [Gauge.gainOf, Gauge.weightOf, hnone] using hinv.nodup
    · rw [hinv.defined definition hdef] at hallocate
      obtain ⟨number, values, rfl, rfl, hvalues⟩ := allocate_picks hallocate
      constructor
      · intro amount hamount
        rw [hlookup] at hamount
        cases hamount
        refine ⟨values, rfl, fun v hv => ?_⟩
        rw [hvalues] at hv
        exact (mem_lowestFree hv).1
      · have hroom := picks_room hinv.nodup hpicks
        rw [hpicked number hargs, ← hvalues] at hroom
        simpa [Gauge.gainOf, Gauge.weightOf, hlookup, rangeGauge, valuesOf, Amount.elems]
          using hroom
  cases hgenerated with
  | @preallocated params alloc hall =>
    exact halloc params alloc (fun number hargs => by simp only [picks, hargs]) hall _
  | @allocated params alloc hall =>
    exact halloc params alloc (fun number hargs => by simp only [picks, hargs]) hall _
  | @premodified id params a deltas hid hall =>
    rcases Resources.modifyAll_lookup hall name with ⟨_, hnone⟩ |
      ⟨args, definition, delta, hargs, hdef, hmodify, hlookup⟩
    · constructor
      · intro delta hdelta
        rw [hnone] at hdelta
        cases hdelta
      · simpa [Gauge.gainOf, hnone] using hinv.nodup
    · rw [hinv.defined definition hdef] at hmodify
      obtain ⟨values, rfl, hperm, _⟩ := change_picks hinv.kept hpicks hid hargs hmodify
      constructor
      · intro delta hdelta
        rw [hlookup] at hdelta
        cases hdelta
        refine ⟨values, rfl, fun v hv hpos => (hpicks.2 v ?_).1⟩
        exact hperm.mem_iff.mp (List.mem_filter.mpr ⟨hv, by simpa using hpos⟩)
      · have hroom := picks_room hinv.nodup hpicks
        rw [← Multiset.coe_eq_coe.mpr hperm] at hroom
        simpa [Gauge.gainOf, hlookup, rangeGauge, addedValues, Amount.elems] using hroom

/-- A change that is created is made of what was asked for. -/
theorem generated_exactly {event : Resources.Event} {change : AllocationChange} {params : Params}
    {args : List Param} (hinv : RangeInv orders desc r name s)
    (hpicks : DistinctPicks orders r name s event) (hparams : event.params = some params)
    (hgenerated : Resources.Generated orders s event (.change change))
    (hargs : params.lookup name = some args) :
    ∃ values, change.deltas.lookup name = some (.range values) ∧ Exactly args values := by
  cases hgenerated with
  | @premodified id params' a deltas hid hall =>
    cases hparams
    rcases Resources.modifyAll_lookup hall name with ⟨hnone, _⟩ |
      ⟨args', definition, delta, hargs', hdef, hmodify, hlookup⟩
    · rw [hargs] at hnone
      cases hnone
    · rw [hargs] at hargs'
      cases hargs'
      rw [hinv.defined definition hdef] at hmodify
      obtain ⟨values, rfl, _, hexactly⟩ := change_picks hinv.kept hpicks hid hargs hmodify
      exact ⟨values, hlookup, hexactly⟩

theorem step_range {event : Resources.Event} (hinv : RangeInv orders desc r name s)
    (hevent : Resources.DefinedAs name (.range r) event)
    (hpicks : DistinctPicks orders r name s event) (hstep : s.step orders event = some t) :
    RangeInv orders desc r name t := by
  obtain ⟨hkept, hnodup⟩ := Gauge.step_account (P := fun m : Multiset ℤ => m.Nodup)
    (fun m m' hle hm => Multiset.nodup_of_le hle hm) hstep hinv.kept hinv.nodup
    (fun entry hgenerated => generated_picks hinv hpicks hgenerated)
  refine ⟨Resources.definitions_step hstep hevent hinv.defined, hkept, hnodup, ?_⟩
  cases Resources.step_cases hstep with
  | define => exact hinv.issued
  | quiet => exact hinv.issued
  | take => exact hinv.issued
  | remove => exact hinv.issued
  | agent => exact hinv.issued
  | @pend entry params modifications hparams _ hgenerated _ =>
    intro change params' args hissued hargs
    rcases List.mem_append.mp hissued with hold | hnew
    · exact hinv.issued change params' args hold hargs
    · cases List.mem_singleton.mp hnew
      exact generated_exactly hinv hpicks hparams hgenerated hargs
  | @send a params hevent' hgenerated =>
    intro change params' args hissued hargs
    rcases List.mem_append.mp hissued with hold | hnew
    · exact hinv.issued change params' args hold hargs
    · cases List.mem_singleton.mp hnew

/-! ## What the invariant says -/

/-- A change that was made of what was asked for adds it when it is applied. -/
theorem apply_addsExactly {a a' : Allocation} {change : AllocationChange} {args : List Param}
    {values : Values} (hdelta : change.deltas.lookup name = some (.range values))
    (hexactly : Exactly args values) (h : a.apply orders change = .ok a') :
    AddsExactly args (rangeValues name (some a)) (rangeValues name (some a')) := by
  obtain ⟨⟨amount, nonzero⟩, hadd⟩ := apply_isOk_iff.mp ⟨a', h⟩ name _ hdelta
  have hafter := apply_lookup h name
  simp only [hdelta, added, hadd] at hafter
  -- what the allocation holds before is a set of values, none if it has no such resource
  have hcurrent : ∃ current, (a.alloc.lookup name).getD (Amount.range values).zero =
      .range current ∧ rangeValues name (some a) = current.elems := by
    unfold rangeValues
    cases hlookup : a.alloc.lookup name with
    | none => exact ⟨.empty, rfl, by simp [hlookup]; rfl⟩
    | some amount =>
      rw [hlookup] at hadd
      cases amount with
      | scalar _ => cases hadd
      | range current => exact ⟨current, rfl, by simp [hlookup, Amount.elems]⟩
  obtain ⟨current, hcurrent, hbefore⟩ := hcurrent
  rw [hcurrent] at hadd
  simp only [Amount.add] at hadd
  cases hfold : (orders.values.arrange values.elems).foldlM addSigned current with
  | error e =>
    simp only [hfold] at hadd
    cases hadd
  | ok result =>
    simp only [hfold, bind, Except.bind, pure, Except.pure, Except.ok.injEq, Prod.mk.injEq] at hadd
    have hresult : rangeValues name (some a') = result.elems := by
      unfold rangeValues
      show ((a'.alloc.lookup name).map Amount.elems).getD [] = _
      rw [hafter, ← hadd.1, ← hadd.2]
      cases helems : result.elems <;> simp [Amount.elems, helems]
    have hsigns : ∀ v ∈ orders.values.arrange values.elems, 0 < v →
        -v ∉ orders.values.arrange values.elems := by
      simpa using hexactly.signs
    obtain ⟨hmem, hout⟩ := addSigned_fold (orders.values.nodup_arrange.mpr values.nodup) hsigns hfold
    have hnew : ∀ v, v ∈ result.elems ∧ v ∉ current.elems ↔ v ∈ values.elems ∧ 0 < v := by
      intro v
      simp only [hmem, HashOrder.mem_arrange]
      constructor
      · rintro ⟨⟨hold, _⟩ | hadded, hnot⟩
        · exact (hnot hold).elim
        · exact hadded
      · rintro ⟨hv, hpos⟩
        exact ⟨Or.inr ⟨hv, hpos⟩, hout v ((orders.values.mem_arrange).mpr hv) hpos⟩
    have hperm : (result.elems.filter fun v => v ∉ current.elems).Perm
        (values.elems.filter fun v => 0 < v) := by
      rw [List.perm_ext_iff_of_nodup (result.nodup.filter _) (values.nodup.filter _)]
      intro v
      simpa using hnew v
    unfold AddsExactly
    rw [hbefore, hresult]
    refine ⟨hperm.length_eq.trans hexactly.count, fun v hv => hperm.mem_iff.mpr ?_⟩
    obtain ⟨hpos, hin⟩ := hexactly.specific v hv
    exact List.mem_filter.mpr ⟨hin, by simpa using hpos⟩

theorem RangeInv.oneOwner (h : RangeInv orders desc r name s) : OneOwner r name s := by
  have hparts := Multiset.nodup_add.mp (Multiset.nodup_add.mp h.nodup).1
  have hconfirmed : ∀ v id, Holds name s v (.confirmed id) → ∃ a,
      s.getConfirmed.lookup id = some a ∧ v ∈ (rangeGauge r).weightOf name a := by
    rintro v id ⟨a, amount, hid, hamount, hv⟩
    exact ⟨a, hid, mem_weightOf.mpr ⟨amount, hamount, hv⟩⟩
  have hpending : ∀ v id, Holds name s v (.pending id) → ∃ item,
      s.pending.lookup id = some item ∧ v ∈ (rangeGauge r).gainOfItem name item := by
    rintro v id ⟨exp, entry, amount, hid, hamount, hv, hsign⟩
    exact ⟨_, hid, mem_gainOfItem.mpr ⟨entry, amount, rfl, hamount, hv, hsign⟩⟩
  have hapart : ∀ v id id', Holds name s v (.confirmed id) → Holds name s v (.pending id') →
      False := by
    intro v id id' hv hv'
    obtain ⟨a, hid, hv⟩ := hconfirmed v id hv
    obtain ⟨item, hid', hv'⟩ := hpending v id' hv'
    exact Multiset.disjoint_left.mp hparts.2.2 (Dict.mem_total.mpr ⟨id, a, hid, hv⟩)
      (Dict.mem_total.mpr ⟨id', item, hid', hv'⟩)
  refine ⟨?_, ?_, ?_⟩
  · intro v h₁ h₂ hv₁ hv₂
    cases h₁ with
    | confirmed id =>
      cases h₂ with
      | confirmed id' =>
        obtain ⟨a, hid, hv⟩ := hconfirmed v id hv₁
        obtain ⟨a', hid', hv'⟩ := hconfirmed v id' hv₂
        rw [Dict.eq_of_nodup_total hparts.1 hid hid' hv hv']
      | pending id' => exact (hapart v id id' hv₁ hv₂).elim
    | pending id =>
      cases h₂ with
      | confirmed id' => exact (hapart v id' id hv₂ hv₁).elim
      | pending id' =>
        obtain ⟨item, hid, hv⟩ := hpending v id hv₁
        obtain ⟨item', hid', hv'⟩ := hpending v id' hv₂
        rw [Dict.eq_of_nodup_total hparts.2.1 hid hid' hv hv']
  · intro v holder hv
    cases holder with
    | confirmed id =>
      obtain ⟨a, amount, hid, hamount, hv⟩ := hv
      obtain ⟨values, rfl, hhas⟩ := h.kept.confirmed id a hid amount hamount
      exact hhas v hv
    | pending id =>
      obtain ⟨exp, entry, amount, hid, hamount, hv, hsign⟩ := hv
      have hfits := h.kept.pending id exp entry hid
      cases entry with
      | allocation a =>
        obtain ⟨values, rfl, hhas⟩ := hfits amount hamount
        exact hhas v hv
      | change c =>
        obtain ⟨values, rfl, hhas⟩ := hfits amount hamount
        exact hhas v hv hsign
  · intro change params args before after hissued hargs hcommitted
    obtain ⟨values, hdelta, hexactly⟩ := h.issued change params args hissued hargs
    obtain ⟨out, result, rev, hexec, rfl⟩ :=
      AgencyAgent.committed_exec h.kept.updating hcommitted
    simp only [exec] at hexec
    split at hexec
    · cases hexec
    · rename_i a hlookup
      cases happly : a.apply orders change with
      | error e =>
        rw [happly] at hexec
        cases hexec
      | ok a' =>
        rw [happly] at hexec
        cases hexec
        rw [hlookup]
        show AddsExactly args _ (rangeValues name
          ((before.allocations.insert change.allocationId a').lookup change.allocationId))
        rw [AList.lookup_insert]
        exact apply_addsExactly hdelta hexactly happly

theorem new_range (now : ℚ) (h : OwnedAtStart r name desc.allocations) :
    RangeInv orders desc r name (Resources.new now desc) := by
  have hpending : ∀ id, (Resources.new now desc).pending.lookup id = none := by
    intro id
    rw [Resources.lookup_pending]
    rfl
  refine ⟨fun d hd => (by cases hd), ⟨fun id a hid amount => h.held id a amount hid, ?_, ?_,
    AgencyAgent.new_updates⟩, ?_, ?_⟩
  · intro id exp entry hid
    rw [hpending] at hid
    cases hid
  · intro u hu
    cases hu
  · show ((rangeGauge r).confirmedTotal name desc.allocations + 0 + 0).Nodup
    rw [add_zero, add_zero]
    exact h.owner
  · intro change params args hissued
    cases hissued

end Account

/-! ## Runs -/

/-- The steps in which the range is not redefined and what is picked is distinct. -/
def RangeStep (orders : Orders) (r : Range) (name : String) :
    Resources → Resources.Event → Resources → Prop :=
  Guarded (fun s event => Resources.DefinedAs name (.range r) event ∧
    DistinctPicks orders r name s event) (Defined (Resources.step orders))

/-- As long as the values picked are distinct, every value has at most one owner, lies within the
bounds, and changes add what was asked for. -/
theorem one_owner {orders : Orders} {r : Range} {name : String} {now : ℚ} {desc : Descriptor}
    {events : List Resources.Event} {s : Resources}
    (hstart : OwnedAtStart r name desc.allocations)
    (hrun : Run (RangeStep orders r name) (.new now desc) events s) : OneOwner r name s :=
  have hinv : RangeInv orders desc r name s :=
    hrun.preserves (fun _ _ _ h hstep => step_range h hstep.1.1 hstep.1.2 hstep.2)
      (new_range now hstart)
  hinv.oneOwner

theorem holds_of_rangeValues {name : String} {s : Resources} {id : String} {v : ℤ}
    (h : v ∈ rangeValues name (s.getConfirmed.lookup id)) : Holds name s v (.confirmed id) := by
  unfold rangeValues at h
  cases ha : s.getConfirmed.lookup id with
  | none => simp [ha] at h
  | some a =>
    cases hamount : a.alloc.lookup name with
    | none => simp [ha, hamount] at h
    | some amount => exact ⟨a, amount, ha, hamount, by simpa [ha, hamount] using h⟩

/-- A change that adds and releases is confirmed beside another allocation. -/
theorem one_owner_changed :
    let orders : Orders := ⟨.stored, .reversed⟩
    let r : Range := ⟨0, 5, by decide⟩
    let params (args : List Param) : Params := Dict.ofList [("port", args)]
    let events : List Resources.Event :=
      [.define "port" (.range (.int 0) (.int 5)), .allocate (params [.int 2]), .run, .saved 0 "2-b",
        .run, .next,
        .premodify "1" (params [.str "add", .int 1, .str "add_specific", .int 4, .str "release",
          .int 0]),
        .preallocate (params [.int 1]), .confirm "2", .run, .saved 0 "3-c", .run, .next,
        .confirm "3", .run, .saved 0 "4-d"]
    ∃ s, Run (RangeStep orders r "port") (.new 0 ⟨"1-a", ∅⟩) events s ∧
      (["1", "3"].map fun id => rangeValues "port" (s.getConfirmed.lookup id)) =
        [[4, 2, 1], [3]] ∧ OneOwner r "port" s := by
  intro orders r params events
  have hstart : OwnedAtStart r "port" (∅ : Dict String Allocation) :=
    ⟨fun id a amount hid => (by cases hid), by simp [Gauge.confirmedTotal]⟩
  have hend : ((events.foldlM (checked (fun s event =>
      Resources.DefinedAs "port" (.range r) event ∧ DistinctPicks orders r "port" s event)
      (Resources.step orders)) (.new 0 ⟨"1-a", ∅⟩)).map fun s =>
      ["1", "3"].map fun id => rangeValues "port" (s.getConfirmed.lookup id)) =
      some [[4, 2, 1], [3]] := by decide +kernel
  obtain ⟨s, hs, hvalues⟩ := Option.map_eq_some_iff.mp hend
  have hrun := run_checked hs
  exact ⟨s, hrun, hvalues, one_owner hstart hrun⟩

/-- A specific value beyond the range, and two allocations of the same value. -/
theorem range_overrun_and_shared :
    let orders : Orders := ⟨.stored, .stored⟩
    let r : Range := ⟨1, 10, by decide⟩
    let params (args : List Param) : Params := Dict.ofList [("port", args)]
    let desc : Descriptor := ⟨"1-a", ∅⟩
    let beyond : List Resources.Event :=
      [.define "port" (.range (.int 1) (.int 10)), .allocate (params [.int 1]), .run,
        .saved 0 "2-b", .run, .next,
        .premodify "1" (params [.str "add_specific", .int 20]), .confirm "2", .run, .saved 0 "3-c"]
    let twice : List Resources.Event :=
      [.define "port" (.range (.int 1) (.int 10)), .allocate (params [.int 1]),
        .allocate (params [.int 1]), .run, .saved 0 "2-b", .run, .next, .run, .saved 0 "3-c"]
    OwnedAtStart r "port" desc.allocations ∧
      (∀ event ∈ beyond ++ twice, Resources.DefinedAs "port" (.range r) event) ∧
      (∃ s, Run (Defined (Resources.step orders)) (.new 0 desc) beyond s ∧
        ¬ OneOwner r "port" s) ∧
      ∃ s, Run (Defined (Resources.step orders)) (.new 0 desc) twice s ∧
        ¬ OneOwner r "port" s := by
  intro orders r params desc beyond twice
  refine ⟨⟨fun id a amount hid => (by cases hid), by simp [desc, Gauge.confirmedTotal]⟩, by decide,
    ?_, ?_⟩
  · have hend : ((beyond.foldlM (Resources.step orders) (.new 0 desc)).map fun s =>
        rangeValues "port" (s.getConfirmed.lookup "1")) = some [20, 1] := by decide +kernel
    obtain ⟨s, hs, hvalues⟩ := Option.map_eq_some_iff.mp hend
    refine ⟨s, run_defined hs, fun h => ?_⟩
    have hbounds := h.bounds 20 (.confirmed "1")
      (holds_of_rangeValues (by rw [hvalues]; exact List.mem_cons_self))
    revert hbounds
    decide
  · have hend : ((twice.foldlM (Resources.step orders) (.new 0 desc)).map fun s =>
        (rangeValues "port" (s.getConfirmed.lookup "1"),
          rangeValues "port" (s.getConfirmed.lookup "2"))) = some ([1], [1]) := by decide +kernel
    obtain ⟨s, hs, hvalues⟩ := Option.map_eq_some_iff.mp hend
    obtain ⟨hone, htwo⟩ := Prod.mk.inj hvalues
    refine ⟨s, run_defined hs, fun h => ?_⟩
    have hsame := h.owner 1 (.confirmed "1") (.confirmed "2")
      (holds_of_rangeValues (by rw [hone]; exact List.mem_cons_self))
      (holds_of_rangeValues (by rw [htwo]; exact List.mem_cons_self))
    exact absurd (Holder.confirmed.inj hsame) (by decide)

end Feat.Agents
