import Mathlib.Algebra.BigOperators.Group.List.Basic
import Mathlib.Data.List.Nodup
import Mathlib.Tactic.Common
import Mathlib.Algebra.GroupWithZero.Nat
import Feat.Lib.Run
import Feat.Agents.FindNeighbours

/- What the search for neighbours does with the slots of the agent: the bids that are granted fit
   the free slots and have allocations of their own, and when the contract has ended every
   allocation is used by a partner or released (`Right`).

   The first part holds in every run: the bids chosen need what `closed` counted
   (`choose_spec`), and the allocations of the grants are those that were made, in their order
   (`prepareGrants_spec`). The second is up to how the contract ends. `_prepare_grant` takes the
   allocations from the list that the failure handlers release: after the grant the list is empty
   and they release nothing; and before the grant there is no handler for the end of the contract,
   nor for an error in the chain. The result of this file is that a slot is lost in just these
   cases (`slots_released_iff`). -/
namespace Feat.Agents.Shard
open Transition

section
variable {Key : Type}

/-! ## The properties -/

/-- No slot is leaked. -/
structure Right (s : System Key) : Prop where
  slots : ∀ g ∈ s.grants, g.2.allocations.length = g.1.solutionType.slots
  different : s.granted.Nodup
  fits : s.granted.length ≤ s.freeSlots.toNat
  released : s.contract.ended = true → ∀ id ∈ s.made, s.Held id → s.allocationUsed id = true

/-- The contract does not expire while allocations are confirmed; one that cannot be confirmed is
the first; and it is cancelled or times out when each allocation that was granted is used by a
partner or was released. -/
def Orderly (s : System Key) : Event Key → Prop
  | .expired => s.contract = .announced
  | .saved true => ∀ id ∈ s.confirming.head?, id ∈ s.preallocated
  | .saved false => s.confirmed = []
  | .cancelled | .aborted => ∀ id ∈ s.granted, s.Held id → s.allocationUsed id = true
  | _ => True

instance (s : System Key) (e : Event Key) : Decidable (Orderly s e) := by
  unfold Orderly
  split <;> infer_instance

/-! ## The bids -/

/-- The allocations that bids take. -/
def cost (bids : List (Bid Key)) : Nat := (bids.map (·.solutionType.slots)).sum

/-- A bid to divorce names a neighbour. -/
def Named (bid : Bid Key) : Prop := bid.solutionType = .divorce → bid.myNeighbours ≠ []

variable {joins bids : List (Bid Key)} {bestDivorce : Option (Bid Key)} {freeSlots : Int}
  {toGrant : List (Bid Key)} {needed : Nat}

theorem cost_joins (h : ∀ bid ∈ joins, bid.solutionType = .join) : cost joins = joins.length := by
  induction joins with
  | nil => rfl
  | cons bid rest ih =>
    have hrest := ih fun b hb => h b (List.mem_cons_of_mem _ hb)
    have hbid := h bid List.mem_cons_self
    unfold cost at hrest ⊢
    rw [List.map_cons, List.sum_cons, hrest, hbid]
    simp [SolutionType.slots, Nat.add_comm]

/-- The bids that are chosen need as many slots as are asked for, which are free. -/
theorem choose_spec (hjoins : ∀ bid ∈ joins, bid.solutionType = .join)
    (hdivorce : ∀ bid ∈ bestDivorce, bid.solutionType = .divorce ∧ bid.myNeighbours ≠ [])
    (h : choose freeSlots joins bestDivorce = some (toGrant, needed)) :
    cost toGrant = needed ∧ (0 < freeSlots → needed ≤ freeSlots.toNat) ∧
      ∀ bid ∈ toGrant, Named bid := by
  have hnamed : ∀ bid ∈ joins, Named bid := fun bid hb hd => by
    rw [hjoins bid hb] at hd
    cases hd
  unfold choose at h
  split at h
  · cases h
  · rename_i hzero
    split at h
    · rename_i hone
      cases joins with
      | nil => cases h
      | cons join rest =>
        obtain ⟨rfl, rfl⟩ : [join] = toGrant ∧ 1 = needed := by simpa using h
        have hjoin := hjoins join List.mem_cons_self
        refine ⟨by simp [cost, hjoin, SolutionType.slots], fun _ => by omega, fun bid hb => ?_⟩
        rw [List.mem_singleton.mp hb]
        exact hnamed join List.mem_cons_self
    · rename_i hone
      split at h
      · obtain ⟨rfl, rfl⟩ : slice joins freeSlots = toGrant ∧
            (slice joins freeSlots).length = needed := by simpa using h
        have hsub : ∀ bid ∈ slice joins freeSlots, bid ∈ joins := fun bid hb => by
          unfold slice at hb
          split at hb
          · exact List.mem_of_mem_take hb
          · exact List.mem_of_mem_take hb
        refine ⟨cost_joins fun bid hb => hjoins bid (hsub bid hb), fun hpos => ?_,
          fun bid hb => hnamed bid (hsub bid hb)⟩
        unfold slice
        rw [if_pos (Int.le_of_lt hpos)]
        exact List.length_take_le _ _
      · split at h
        · rename_i divorce
          obtain ⟨rfl, rfl⟩ : [divorce] = toGrant ∧ 2 = needed := by simpa using h
          obtain ⟨htype, hne⟩ := hdivorce divorce rfl
          refine ⟨by simp [cost, htype, SolutionType.slots], fun _ => by omega, fun bid hb => ?_⟩
          rw [List.mem_singleton.mp hb]
          exact fun _ => hne
        · rename_i join hfew
          obtain ⟨rfl, rfl⟩ : [join] = toGrant ∧ 1 = needed := by simpa using h
          have hjoin := hjoins join List.mem_cons_self
          refine ⟨by simp [cost, hjoin, SolutionType.slots], fun _ => by omega, fun bid hb => ?_⟩
          rw [List.mem_singleton.mp hb]
          exact hnamed join List.mem_cons_self
        · cases h

theorem mem_pickBest {number : Nat} {bid : Bid Key} (h : bid ∈ Bid.pickBest bids number) :
    bid ∈ bids := by
  unfold Bid.pickBest at h
  exact List.mem_mergeSort.mp (List.mem_of_mem_take h)

theorem mem_categorize {solutionType : SolutionType} {bid : Bid Key} :
    bid ∈ categorize solutionType bids ↔ bid ∈ bids ∧ bid.solutionType = solutionType := by
  simp [categorize]

/-- The bid that is picked for a divorce is one of the bids, with the neighbour to divorce. -/
theorem pickDivorceBid_spec [LinearOrder Key] {incorrectChoices : List Key}
    {divorceBids : List (Bid Key)} {bid : Bid Key}
    (h : pickDivorceBid incorrectChoices divorceBids bids = some bid) :
    ∃ b ∈ divorceBids, bid.solutionType = b.solutionType ∧ bid.myNeighbours ≠ [] := by
  unfold pickDivorceBid at h
  obtain ⟨best, -, h⟩ := Option.bind_eq_some_iff.mp h
  obtain ⟨b, hb, h⟩ := Option.bind_eq_some_iff.mp h
  obtain rfl := Option.some.inj h
  exact ⟨b, List.mem_reverse.mp (List.mem_of_find?_eq_some hb), rfl, by simp⟩

/-- The allocations of the grants are the first ones, in their order. -/
theorem prepareGrants_spec (own : Key) {allocations : List Nat}
    (hcost : cost bids ≤ allocations.length) (hnamed : ∀ bid ∈ bids, Named bid) :
    ∃ grants rest, prepareGrants own allocations bids = some (grants, rest) ∧
      grants.flatMap (·.2.allocations) ++ rest = allocations ∧
      rest.length + cost bids = allocations.length ∧
      ∀ g ∈ grants, g.2.allocations.length = g.1.solutionType.slots := by
  induction bids generalizing allocations with
  | nil => exact ⟨[], allocations, rfl, rfl, by simp [cost], by simp⟩
  | cons bid bids ih =>
    have hcons : cost (bid :: bids) = bid.solutionType.slots + cost bids := by simp [cost]
    rw [hcons] at hcost ⊢
    -- the grant of the first bid
    obtain ⟨g, left, hgrant, hsplit, hlen⟩ : ∃ g left, prepareGrant own allocations bid =
        some (g, left) ∧ g.allocations ++ left = allocations ∧
          g.allocations.length = bid.solutionType.slots := by
      unfold prepareGrant
      cases htype : bid.solutionType with
      | join =>
        cases allocations with
        | nil => simp [htype, SolutionType.slots] at hcost
        | cons a rest => exact ⟨_, _, rfl, rfl, rfl⟩
      | divorce =>
        match allocations with
        | [] => simp [htype, SolutionType.slots] at hcost
        | [a] =>
          rw [htype] at hcost
          simp only [SolutionType.slots, List.length_singleton] at hcost
          omega
        | a :: b :: rest =>
          have hne := hnamed bid List.mem_cons_self htype
          cases hneighbours : bid.myNeighbours with
          | nil => exact absurd hneighbours hne
          | cons y ys => exact ⟨_, _, rfl, rfl, rfl⟩
    have hlength : g.allocations.length + left.length = allocations.length := by
      rw [← hsplit, List.length_append]
    have hleft : cost bids ≤ left.length := by omega
    obtain ⟨grants, rest, hgrants, happend, hrest, hslots⟩ := ih hleft fun b hb =>
      hnamed b (List.mem_cons_of_mem _ hb)
    refine ⟨(bid, g) :: grants, rest, ?_, ?_, by omega, ?_⟩
    · show (prepareGrant own allocations bid).bind _ = _
      rw [hgrant]
      show (prepareGrants own left bids).bind _ = _
      rw [hgrants]
      rfl
    · rw [List.flatMap_cons, List.append_assoc, happend, hsplit]
    · intro x hx
      obtain rfl | hx := List.mem_cons.mp hx
      · exact hlen
      · exact hslots x hx

/-! ## What holds of the allocations -/

/-- How far the allocations have come, by the state of the contract. -/
def Stage (s : System Key) : Prop :=
  match s.contract with
  | .announced => s.made = [] ∧ s.allocations = [] ∧ s.saving = none ∧ s.confirmed = [] ∧
      s.grants = []
  | .closed => s.grants = [] ∧ s.allocations = s.made ∧
      (∃ id, s.saving = some id ∧ s.made = s.confirmed ++ id :: s.confirming) ∧
      cost s.toGrant = s.made.length ∧ s.made.length ≤ s.freeSlots.toNat ∧
      (∀ bid ∈ s.toGrant, Named bid) ∧ ∀ p ∈ s.neighbours, p.2 ∉ s.made
  | .granted | .completed | .cancelled | .aborted => s.saving = none ∧ s.allocations = [] ∧
      s.granted = s.made ∧ (∀ g ∈ s.grants, g.2.allocations.length = g.1.solutionType.slots) ∧
      s.made.length ≤ s.freeSlots.toNat
  | .expired | .terminated | .wtf => s.saving = none ∧ s.confirmed = [] ∧ s.grants = []

/-- An allocation is known by its id; a grant that was reported has its allocations used, and so has
every grant when the contract has ended. -/
structure Valid (s : System Key) : Prop where
  nodup : s.made.Nodup
  fresh : ∀ id ∈ s.made, id < s.nextId
  others : ∀ p ∈ s.neighbours, p.2 < s.nextId
  confirmed : s.confirmed.Sublist s.made
  stage : Stage s
  early : s.grants = [] → s.reported = []
  reported : ∀ i ∈ s.reported, ∀ g ∈ s.grants[i]?, ∀ id ∈ g.2.allocations, s.Held id →
    s.allocationUsed id = true
  released : s.contract.ended = true → ∀ id ∈ s.made, s.Held id → s.allocationUsed id = true

variable {s t : System Key} {id : Nat}

theorem Valid.right (h : Valid s) : Right s := by
  have hgrants : s.grants = [] → s.granted = [] := fun hg => by simp [System.granted, hg]
  have hstage := h.stage
  have hnone (hg : s.grants = []) : Right s :=
    ⟨by simp [hg], by simp [hgrants hg], by simp [hgrants hg], h.released⟩
  have hsome (hg : s.granted = s.made)
      (hslots : ∀ g ∈ s.grants, g.2.allocations.length = g.1.solutionType.slots)
      (hfits : s.made.length ≤ s.freeSlots.toNat) : Right s :=
    ⟨hslots, hg ▸ h.nodup, hg ▸ hfits, h.released⟩
  unfold Stage at hstage
  split at hstage
  · exact hnone hstage.2.2.2.2
  · exact hnone hstage.1
  · exact hsome hstage.2.2.1 hstage.2.2.2.1 hstage.2.2.2.2
  · exact hsome hstage.2.2.1 hstage.2.2.2.1 hstage.2.2.2.2
  · exact hsome hstage.2.2.1 hstage.2.2.2.1 hstage.2.2.2.2
  · exact hsome hstage.2.2.1 hstage.2.2.2.1 hstage.2.2.2.2
  · exact hnone hstage.2.2
  · exact hnone hstage.2.2
  · exact hnone hstage.2.2

theorem Valid.new (own : Key) (neighbours : List (Key × Nat)) (total others : Nat) :
    Valid (.new own neighbours total others) where
  nodup := List.nodup_nil
  fresh id h := by simp [System.new] at h
  others p hp := by
    have hmax : ∀ l : List Nat, ∀ n ∈ l, n ≤ l.foldr max 0 := by
      intro l
      induction l with
      | nil => simp
      | cons m l ih =>
        intro n hn
        obtain rfl | hn := List.mem_cons.mp hn
        · exact Nat.le_max_left _ _
        · exact Nat.le_trans (ih n hn) (Nat.le_max_right _ _)
    exact Nat.lt_succ_of_le (hmax _ _ (List.mem_map_of_mem hp))
  confirmed := List.Sublist.refl _
  stage := ⟨rfl, rfl, rfl, rfl, rfl⟩
  early _ := rfl
  reported i h := by simp [System.new] at h
  released h := by simp [System.new, ContractState.ended] at h

/-! ## Allocations that are made and confirmed -/

/-- The preallocations are new. -/
theorem preallocate_spec (needed : Nat) (s : System Key) :
    ∃ k ≤ needed, (s.preallocate needed).2 = { s with
        preallocated := s.preallocated ++ List.range' s.nextId k
        allocations := s.allocations ++ List.range' s.nextId k
        made := s.made ++ List.range' s.nextId k
        nextId := s.nextId + k } ∧
      ((s.preallocate needed).1 = true → k = needed ∧ (0 < needed → s.allocated < s.total)) := by
  induction needed generalizing s with
  | zero =>
    exact ⟨0, Nat.le_refl _, by simp [System.preallocate], fun _ => ⟨rfl, fun h => by omega⟩⟩
  | succ needed ih =>
    unfold System.preallocate
    split
    · rename_i hfree
      obtain ⟨k, hk, heq, hok⟩ := ih { s with
        preallocated := s.preallocated ++ [s.nextId]
        allocations := s.allocations ++ [s.nextId]
        made := s.made ++ [s.nextId]
        nextId := s.nextId + 1 }
      refine ⟨k + 1, by omega, ?_, fun h => ⟨by rw [(hok h).1], fun _ => hfree⟩⟩
      rw [heq]
      simp [List.range'_succ, Nat.add_assoc, Nat.add_comm 1 k]
    · exact ⟨0, Nat.zero_le _, by simp, fun h => by cases h⟩

/-- An allocation that is not known to be confirmed cannot be, once it has expired. -/
theorem confirm_cons {rest : List Nat} (hnot : id ∉ s.confirmed) :
    s.confirm (id :: rest) = if id ∈ s.preallocated then
      { s with preallocated := s.preallocated.erase id, saving := some id, confirming := rest }
    else s.fail := by
  show (if id ∈ s.preallocated then _ else if id ∈ s.confirmed then _ else _) = _
  rw [if_neg hnot]

/-- The grants take all allocations. -/
theorem grant_spec (hclosed : s.contract = .closed) (hcost : cost s.toGrant = s.allocations.length)
    (hnamed : ∀ bid ∈ s.toGrant, Named bid) :
    ∃ grants, s.grant = { s with contract := .granted, allocations := [], grants } ∧
      grants.flatMap (·.2.allocations) = s.allocations ∧
      ∀ g ∈ grants, g.2.allocations.length = g.1.solutionType.slots := by
  obtain ⟨grants, rest, hgrants, hsplit, hlen, hslots⟩ :=
    prepareGrants_spec s.own (Nat.le_of_eq hcost) hnamed
  obtain rfl : rest = [] := List.eq_nil_of_length_eq_zero (by omega)
  refine ⟨grants, ?_, by simpa using hsplit, hslots⟩
  unfold System.grant
  rw [hgrants]
  dsimp only
  rw [if_pos hclosed]

/-- The allocations are made, and those in `l` are still to be confirmed. -/
structure Ready (s : System Key) (l : List Nat) : Prop where
  nodup : s.made.Nodup
  fresh : ∀ id ∈ s.made, id < s.nextId
  others : ∀ p ∈ s.neighbours, p.2 < s.nextId
  contract : s.contract = .closed
  grants : s.grants = []
  reported : s.reported = []
  saving : s.saving = none
  allocations : s.allocations = s.made
  made : s.made = s.confirmed ++ l
  slots : cost s.toGrant = s.made.length
  fits : s.made.length ≤ s.freeSlots.toNat
  named : ∀ bid ∈ s.toGrant, Named bid
  unused : ∀ p ∈ s.neighbours, p.2 ∉ s.made

theorem Ready.not_confirmed {l : List Nat} (h : Ready s (id :: l)) : id ∉ s.confirmed := by
  have hnodup := h.nodup
  rw [h.made] at hnodup
  exact fun hin => (List.nodup_append.mp hnodup).2.2 id hin id List.mem_cons_self rfl

/-- The next allocation is being confirmed, or the grants are made. -/
theorem Ready.confirm {l : List Nat} (h : Ready s l)
    (hnext : ∀ id ∈ l.head?, id ∈ s.preallocated) : Valid (s.confirm l) := by
  cases l with
  | nil =>
    have hcost : cost s.toGrant = s.allocations.length := h.allocations ▸ h.slots
    obtain ⟨grants, heq, hsplit, hslots⟩ :=
      grant_spec (s := { s with confirming := [] }) h.contract hcost h.named
    show Valid (System.grant { s with confirming := [] })
    rw [heq]
    refine ⟨h.nodup, h.fresh, h.others, ?_,
      ⟨h.saving, rfl, hsplit.trans h.allocations, hslots, h.fits⟩, fun _ => h.reported,
      fun i hi => ?_, fun hended => by cases hended⟩
    · show s.confirmed.Sublist s.made
      rw [h.made]
      exact List.sublist_append_left _ _
    · have hin : i ∈ s.reported := hi
      simp [h.reported] at hin
  | cons id rest =>
    rw [confirm_cons h.not_confirmed, if_pos (hnext id rfl)]
    refine ⟨h.nodup, h.fresh, h.others, ?_, ?_, fun _ => h.reported, fun i hi => ?_,
      fun hended => ?_⟩
    · show s.confirmed.Sublist s.made
      rw [h.made]
      exact List.sublist_append_left _ _
    · unfold Stage
      simp only [h.contract]
      exact ⟨h.grants, h.allocations, ⟨id, rfl, h.made⟩, h.slots, h.fits, h.named, h.unused⟩
    · have hin : i ∈ s.reported := hi
      simp [h.reported] at hin
    · have hstate : s.contract.ended = true := hended
      rw [h.contract] at hstate
      cases hstate

/-- The manager chooses the bids and makes the allocations. -/
theorem Valid.closed [LinearOrder Key] (h : Valid s) (hannounced : s.contract = .announced)
    (bids : List (Bid Key)) : Valid (s.closed bids) := by
  have hstage := h.stage
  unfold Stage at hstage
  rw [hannounced] at hstage
  obtain ⟨hmade, hallocations, hsaving, hconfirmed, hgrants⟩ := hstage
  have hreported := h.early hgrants
  unfold System.closed
  dsimp only
  split
  · refine ⟨h.nodup, h.fresh, h.others, h.confirmed, ⟨hsaving, hconfirmed, hgrants⟩, h.early,
      h.reported, fun _ id hid => ?_⟩
    have hin : id ∈ s.made := hid
    simp [hmade] at hin
  · rename_i toGrant needed hchoose
    obtain ⟨hcost, hfits, hnamed⟩ := choose_spec
      (fun bid hb => (mem_categorize.mp (mem_pickBest hb)).2)
      (fun bid hb => by
        obtain ⟨b, hb', htype, hne⟩ := pickDivorceBid_spec hb
        exact ⟨htype.trans (mem_categorize.mp hb').2, hne⟩) hchoose
    obtain ⟨k, hk, heq, hok⟩ := preallocate_spec needed { s with
      contract := .closed, freeSlots := s.countFreeSlots, toGrant := toGrant }
    have hids : ∀ id ∈ List.range' s.nextId k, s.nextId ≤ id ∧ id < s.nextId + k := fun id hid => by
      simpa using List.mem_range'_1.mp hid
    have hnodup : (s.made ++ List.range' s.nextId k).Nodup := by
      rw [hmade]
      exact List.nodup_range'
    have hfresh : ∀ id ∈ s.made ++ List.range' s.nextId k, id < s.nextId + k := by
      rw [hmade]
      exact fun id hid => (hids id hid).2
    have hothers : ∀ p ∈ s.neighbours, p.2 < s.nextId + k := fun p hp =>
      Nat.lt_add_right k (h.others p hp)
    split
    · rename_i s' hpre
      rw [hpre] at heq hok
      obtain ⟨rfl, hfree⟩ := hok rfl
      have heq : s' = _ := heq
      rw [heq]
      have hlen : (s.made ++ List.range' s.nextId k).length = k := by simp [hmade]
      refine Ready.confirm ⟨hnodup, hfresh, hothers, rfl, hgrants, hreported, hsaving, ?_, ?_, ?_,
        ?_, hnamed, ?_⟩ ?_
      · show s.allocations ++ _ = s.made ++ _
        rw [hallocations, hmade]
      · show s.made ++ _ = s.confirmed ++ (s.allocations ++ _)
        rw [hallocations, hmade, hconfirmed]
        rfl
      · exact hcost.trans hlen.symm
      · show (s.made ++ List.range' s.nextId k).length ≤ s.countFreeSlots.toNat
        rw [hlen]
        by_cases hzero : k = 0
        · omega
        · have hlt : s.allocated < s.total := hfree (by omega)
          exact hfits (by
            show 0 < s.countFreeSlots
            unfold System.countFreeSlots
            omega)
      · intro p hp hin
        have hin : p.2 ∈ s.made ++ List.range' s.nextId k := hin
        rw [hmade] at hin
        have hlow := (hids p.2 hin).1
        have hlt := h.others p hp
        omega
      · intro id hid
        have hid : id ∈ s.allocations ++ List.range' s.nextId k := List.mem_of_mem_head? hid
        rw [hallocations] at hid
        exact List.mem_append_right _ hid
    · rename_i s' hpre
      rw [hpre] at heq
      have heq : s' = _ := heq
      rw [heq]
      refine ⟨hnodup, hfresh, hothers, ?_, ⟨hsaving, hconfirmed, hgrants⟩, fun _ => hreported,
        fun i hi => ?_, fun _ id _ hheld => ?_⟩
      · show s.confirmed.Sublist _
        rw [hconfirmed]
        exact List.nil_sublist _
      · have hin : i ∈ s.reported := hi
        simp [hreported] at hin
      · obtain hs | hc := hheld
        · rw [show s.saving = some id from hs] at hsaving
          cases hsaving
        · rw [show s.confirmed = [] from hconfirmed] at hc
          cases hc

/-! ## The descriptor is saved -/

/-- An allocation is being saved only while the contract is closed. -/
theorem Valid.closed_of_saving (h : Valid s) (hs : s.saving = some id) :
    s.contract = .closed ∧ Ready { s with saving := none, confirmed := s.confirmed ++ [id] }
      s.confirming := by
  have hstage := h.stage
  have hno : s.saving ≠ none := by simp [hs]
  unfold Stage at hstage
  split at hstage
  · exact absurd hstage.2.2.1 hno
  · rename_i hclosed
    obtain ⟨hgrants, hallocations, ⟨id', hs', hmade⟩, hcost, hfits, hnamed, hunused⟩ := hstage
    obtain rfl := Option.some.inj (hs.symm.trans hs')
    exact ⟨hclosed, h.nodup, h.fresh, h.others, hclosed, hgrants, h.early hgrants, rfl,
      hallocations, by simpa using hmade, hcost, hfits, hnamed, hunused⟩
  all_goals exact absurd hstage.1 hno

/-- The save of a descriptor fails: its allocation is not confirmed. -/
theorem Ready.not_saved (h : Ready { s with saving := none, confirmed := s.confirmed ++ [id] }
    s.confirming) : Ready { s with saving := none } (id :: s.confirming) :=
  ⟨h.nodup, h.fresh, h.others, h.contract, h.grants, h.reported, rfl, h.allocations,
    by simpa using h.made, h.slots, h.fits, h.named, h.unused⟩

/-- An allocation that was confirmed is lost where the chain ends with an error. -/
theorem lost_of_fail {l : List Nat} (h : Ready s l) (hin : id ∈ s.confirmed) : ¬ Right s.fail := by
  intro hr
  have hmade : id ∈ s.made := h.made ▸ List.mem_append_left _ hin
  have hended : s.fail.contract.ended = true := by
    unfold System.fail System.finalize
    rw [h.contract]
    rfl
  have hsame : s.fail.made = s.made ∧ s.fail.confirmed = s.confirmed ∧
      s.fail.neighbours = s.neighbours := by
    unfold System.fail System.finalize
    rw [h.contract]
    exact ⟨rfl, rfl, rfl⟩
  have hused := hr.released hended id (hsame.1 ▸ hmade) (.inr (hsame.2.1 ▸ hin))
  unfold System.allocationUsed at hused
  rw [hsame.2.2] at hused
  obtain ⟨p, hp, he⟩ := List.any_eq_true.mp hused
  exact h.unused p hp (of_decide_eq_true he ▸ hmade)

/-- An error where nothing is confirmed yet loses nothing. -/
theorem Ready.fail {l : List Nat} (h : Ready s l) (hnone : s.confirmed = []) : Valid s.fail := by
  have heq : s.fail = { s with contract := .wtf, confirming := [] } := by
    unfold System.fail System.finalize
    rw [h.contract]
    rfl
  rw [heq]
  refine ⟨h.nodup, h.fresh, h.others, ?_, ⟨h.saving, hnone, h.grants⟩, fun _ => h.reported,
    fun i hi => ?_, fun _ id _ hheld => ?_⟩
  · show s.confirmed.Sublist s.made
    rw [hnone]
    exact List.nil_sublist _
  · have hin : i ∈ s.reported := hi
    simp [h.reported] at hin
  · obtain hs | hc := hheld
    · have hs : s.saving = some id := hs
      rw [h.saving] at hs
      cases hs
    · have hc : id ∈ s.confirmed := hc
      rw [hnone] at hc
      cases hc

/-! ## Partners -/

/-- What releases allocations, and takes none from a partner that keeps it, keeps what holds. -/
theorem Valid.change (h : Valid s) (neighbours : List (Key × Nat))
    (confirmed preallocated : List Nat) (others : Nat)
    (hneighbours : ∀ p ∈ neighbours, p.2 < s.nextId)
    (hconfirmed : confirmed.Sublist s.confirmed)
    (hclosed : s.contract = .closed → confirmed = s.confirmed ∧
      ∀ p ∈ neighbours, p ∈ s.neighbours)
    (hused : ∀ id, s.saving = some id ∨ id ∈ confirmed → s.allocationUsed id = true →
      neighbours.any (·.2 = id) = true) :
    Valid { s with neighbours, confirmed, preallocated, others } := by
  have hnil : s.confirmed = [] → confirmed = [] := fun hn => List.sublist_nil.mp (hn ▸ hconfirmed)
  have hheld : ∀ id, s.saving = some id ∨ id ∈ confirmed → s.Held id := fun _ hid =>
    hid.imp_right fun hc => hconfirmed.subset hc
  refine ⟨h.nodup, h.fresh, hneighbours, hconfirmed.trans h.confirmed, ?_, h.early,
    fun i hi g hg id hid hk => hused id hk (h.reported i hi g hg id hid (hheld id hk)),
    fun hended id hid hk => hused id hk (h.released hended id hid (hheld id hk))⟩
  have hstage := h.stage
  unfold Stage at hstage ⊢
  dsimp only
  split at hstage
  · exact ⟨hstage.1, hstage.2.1, hstage.2.2.1, hnil hstage.2.2.2.1, hstage.2.2.2.2⟩
  · rename_i hstate
    obtain ⟨hsame, hsub⟩ := hclosed hstate
    obtain ⟨hgrants, hallocations, hmade, hcost, hfits, hnamed, hunused⟩ := hstage
    exact ⟨hgrants, hallocations, hsame ▸ hmade, hcost, hfits, hnamed,
      fun p hp => hunused p (hsub p hp)⟩
  · rename_i hstate
    simp only [hstate]
    exact hstage
  · rename_i hstate
    simp only [hstate]
    exact hstage
  · rename_i hstate
    simp only [hstate]
    exact hstage
  · rename_i hstate
    simp only [hstate]
    exact hstage
  · exact ⟨hstage.1, hnil hstage.2.1, hstage.2.2⟩
  · exact ⟨hstage.1, hnil hstage.2.1, hstage.2.2⟩
  · exact ⟨hstage.1, hnil hstage.2.1, hstage.2.2⟩

/-- An allocation that is granted was made, and the contract is not closed. -/
theorem Valid.granted (h : Valid s) (hin : id ∈ s.granted) :
    id ∈ s.made ∧ s.contract ≠ .closed ∧ s.saving = none := by
  have hno : s.grants ≠ [] := fun hg => by simp [System.granted, hg] at hin
  have hstage := h.stage
  unfold Stage at hstage
  split at hstage
  · exact absurd hstage.2.2.2.2 hno
  · exact absurd hstage.1 hno
  · rename_i hstate
    exact ⟨hstage.2.2.1 ▸ hin, by simp [hstate], hstage.1⟩
  · rename_i hstate
    exact ⟨hstage.2.2.1 ▸ hin, by simp [hstate], hstage.1⟩
  · rename_i hstate
    exact ⟨hstage.2.2.1 ▸ hin, by simp [hstate], hstage.1⟩
  · rename_i hstate
    exact ⟨hstage.2.2.1 ▸ hin, by simp [hstate], hstage.1⟩
  · exact absurd hstage.2.2 hno
  · exact absurd hstage.2.2 hno
  · exact absurd hstage.2.2 hno

/-- A partner is set up with an allocation that was granted. -/
theorem Valid.established (h : Valid s) (neighbour : Key) (hin : id ∈ s.granted) :
    Valid { s with neighbours := s.neighbours ++ [(neighbour, id)] } := by
  obtain ⟨hmade, hstate, -⟩ := h.granted hin
  refine h.change _ s.confirmed s.preallocated s.others (fun p hp => ?_) (List.Sublist.refl _)
    (fun hclosed => absurd hclosed hstate) (fun id' _ hused => ?_)
  · obtain hold | hlast := List.mem_append.mp hp
    · exact h.others p hold
    · rw [List.mem_singleton.mp hlast]
      exact h.fresh id hmade
  · rw [List.any_append]
    simp [show s.neighbours.any (·.2 = id') = true from hused]

/-- A partner leaves with its allocation. -/
theorem Valid.left [DecidableEq Key] (h : Valid s) (neighbour : Key)
    (hin : (neighbour, id) ∈ s.neighbours) :
    Valid { s with
      neighbours := s.neighbours.erase (neighbour, id)
      confirmed := s.confirmed.erase id } := by
  have hconfirmed : s.confirmed.Nodup := h.confirmed.nodup h.nodup
  -- while the contract is closed no partner has an allocation of the manager
  have hfree : s.contract = .closed → id ∉ s.made := fun hclosed => by
    have hstage := h.stage
    unfold Stage at hstage
    rw [hclosed] at hstage
    exact hstage.2.2.2.2.2.2 _ hin
  refine h.change _ _ s.preallocated s.others (fun p hp => h.others p (List.mem_of_mem_erase hp))
    List.erase_sublist (fun hclosed => ⟨?_, fun p hp => List.mem_of_mem_erase hp⟩)
    (fun id' hheld hused => ?_)
  · exact List.erase_of_not_mem fun hc => hfree hclosed (h.confirmed.subset hc)
  · have hne : id' ≠ id := by
      rintro rfl
      obtain hs | hc := hheld
      · obtain ⟨hclosed, hready⟩ := h.closed_of_saving hs
        have hmade : s.made = (s.confirmed ++ [id']) ++ s.confirming := hready.made
        exact hfree hclosed (by rw [hmade]; simp)
      · exact (List.Nodup.not_mem_erase hconfirmed) hc
    obtain ⟨p, hp, he⟩ := List.any_eq_true.mp hused
    have hid : p.2 = id' := of_decide_eq_true he
    refine List.any_eq_true.mpr ⟨p, ?_, he⟩
    refine (List.mem_erase_of_ne ?_).mpr hp
    rintro rfl
    exact hne hid.symm

/-- An allocation is released that no partner uses. -/
theorem Valid.releaseResource (h : Valid s) (hin : id ∈ s.granted) :
    Valid ((s.releaseResource id).getD s) := by
  obtain ⟨-, hstate, -⟩ := h.granted hin
  unfold System.releaseResource
  split
  · exact h.change s.neighbours _ s.preallocated s.others h.others List.erase_sublist
      (fun hclosed => absurd hclosed hstate) (fun _ _ hused => hused)
  · split
    · exact h.change s.neighbours s.confirmed _ s.others h.others (List.Sublist.refl _)
        (fun hclosed => absurd hclosed hstate) (fun _ _ hused => hused)
    · exact h

/-! ## The end of the contract -/

/-- There is nothing to release after the grant. -/
theorem Valid.stop_eq (h : Valid s) (hgranted : s.contract = .granted) (contract : ContractState) :
    s.stop contract = { s with contract } ∧ s.granted = s.made := by
  have hstage := h.stage
  unfold Stage at hstage
  rw [hgranted] at hstage
  obtain ⟨-, hallocations, hmade, -⟩ := hstage
  refine ⟨?_, hmade⟩
  unfold System.stop
  rw [hallocations]
  rfl

/-- The contract ends with its allocations used or released. -/
theorem Valid.finish (h : Valid s) (hgranted : s.contract = .granted)
    {contract : ContractState} (hcontract : contract = .completed ∨ contract = .cancelled ∨
      contract = .aborted)
    (hused : ∀ id ∈ s.granted, s.Held id → s.allocationUsed id = true) {reported : List Nat}
    (hreported : ∀ i ∈ reported, ∀ g ∈ s.grants[i]?, ∀ id ∈ g.2.allocations, s.Held id →
      s.allocationUsed id = true) (hearly : s.grants = [] → reported = []) :
    Valid { s with contract, reported } := by
  have hstage := h.stage
  unfold Stage at hstage
  rw [hgranted] at hstage
  refine ⟨h.nodup, h.fresh, h.others, h.confirmed, ?_, hearly, hreported, fun _ id hid => ?_⟩
  · obtain rfl | rfl | rfl := hcontract
    · exact hstage
    · exact hstage
    · exact hstage
  · exact hused id (hstage.2.2.1 ▸ hid)

/-! ## Runs -/

theorem Valid.reportGrant (h : Valid s) {i : Nat} {g : Bid Key × Grant Key}
    (hg : s.grants[i]? = some g) (hgranted : s.contract = .granted)
    (hused : ∀ id ∈ g.2.allocations, s.Held id → s.allocationUsed id = true) :
    Valid (if ∀ j < s.grants.length, j ∈ i :: s.reported then
      { s with reported := i :: s.reported, contract := .completed }
      else { s with reported := i :: s.reported }) := by
  have hreported : ∀ j ∈ i :: s.reported, ∀ g ∈ s.grants[j]?, ∀ id ∈ g.2.allocations, s.Held id →
      s.allocationUsed id = true := by
    intro j hj g' hg'
    obtain rfl | hj := List.mem_cons.mp hj
    · obtain rfl := Option.some.inj (hg.symm.trans hg')
      exact hused
    · exact h.reported j hj g' hg'
  have hearly : s.grants = [] → i :: s.reported = [] := fun hnil => by simp [hnil] at hg
  split
  · rename_i hall
    refine h.finish hgranted (.inl rfl) (fun id hid => ?_) hreported hearly
    obtain ⟨g', hin, hid⟩ := List.mem_flatMap.mp hid
    obtain ⟨j, hj⟩ := List.mem_iff_getElem?.mp hin
    exact hreported j (hall j (List.getElem?_eq_some_iff.mp hj).1) g' hj id hid
  · refine ⟨h.nodup, h.fresh, h.others, h.confirmed, h.stage, hearly, hreported, fun hended => ?_⟩
    have hstate : s.contract.ended = true := hended
    rw [hgranted] at hstate
    cases hstate

theorem Valid.stop (h : Valid s) (hgranted : s.contract = .granted)
    {contract : ContractState} (hcontract : contract = .cancelled ∨ contract = .aborted)
    (hused : ∀ id ∈ s.granted, s.Held id → s.allocationUsed id = true) :
    Valid (s.stop contract) := by
  rw [(h.stop_eq hgranted contract).1]
  exact h.finish hgranted (.inr hcontract) hused h.reported h.early

/-- An allocation that is not used when the contract is cancelled is lost. -/
theorem Valid.lost_of_stop (h : Valid s) (hgranted : s.contract = .granted)
    {contract : ContractState} (hended : contract.ended = true)
    (hwrong : ¬ ∀ id ∈ s.granted, s.Held id → s.allocationUsed id = true) :
    ¬ Right (s.stop contract) := by
  obtain ⟨heq, hmade⟩ := h.stop_eq hgranted contract
  rw [heq]
  exact fun hr => hwrong fun id hid => hr.released hended id (hmade ▸ hid)

variable [LinearOrder Key] {e : Event Key}

/-- A step that goes right keeps what holds. -/
theorem Valid.step (h : Valid s) (horderly : Orderly s e) (hstep : step s e = some t) :
    Valid t := by
  cases e with
  | closed bids =>
    simp only [Shard.step] at hstep
    split at hstep
    · rename_i hannounced
      obtain rfl := Option.some.inj hstep
      exact h.closed hannounced bids
    · cases hstep
  | expired =>
    simp only [Shard.step] at hstep
    split at hstep
    · obtain rfl := Option.some.inj hstep
      have hannounced : s.contract = .announced := horderly
      have hstage := h.stage
      unfold Stage at hstage
      rw [hannounced] at hstage
      obtain ⟨hmade, -, hsaving, hconfirmed, hgrants⟩ := hstage
      refine ⟨h.nodup, h.fresh, h.others, h.confirmed, ⟨hsaving, hconfirmed, hgrants⟩, h.early,
        h.reported, fun _ id hid => ?_⟩
      have hin : id ∈ s.made := hid
      simp [hmade] at hin
    · cases hstep
  | saved ok =>
    obtain ⟨id, hs, rfl⟩ := Option.map_eq_some_iff.mp hstep
    obtain ⟨hclosed, hready⟩ := h.closed_of_saving hs
    cases ok with
    | true => exact hready.confirm horderly
    | false =>
      have hnone : s.confirmed = [] := horderly
      exact hready.not_saved.fail hnone
  | preallocationExpired id =>
    simp only [Shard.step] at hstep
    split at hstep
    · obtain rfl := Option.some.inj hstep
      exact h.change s.neighbours s.confirmed _ s.others h.others (List.Sublist.refl _)
        (fun _ => ⟨rfl, fun _ hp => hp⟩) (fun _ _ hused => hused)
    · cases hstep
  | established neighbour id =>
    simp only [Shard.step] at hstep
    split at hstep
    · rename_i hin
      obtain rfl := Option.some.inj hstep
      exact h.established neighbour hin
    · cases hstep
  | left neighbour id =>
    simp only [Shard.step] at hstep
    split at hstep
    · rename_i hin
      obtain rfl := Option.some.inj hstep
      exact h.left neighbour hin
    · cases hstep
  | released id =>
    simp only [Shard.step] at hstep
    split at hstep
    · rename_i hin
      obtain rfl := Option.some.inj hstep
      exact h.releaseResource hin.1
    · cases hstep
  | reported i =>
    obtain ⟨⟨bid, grant⟩, hg, hstep⟩ := Option.bind_eq_some_iff.mp hstep
    dsimp only at hstep
    split at hstep
    · rename_i hdone
      obtain rfl := Option.some.inj hstep
      exact h.reportGrant hg hdone.1 hdone.2
    · cases hstep
  | cancelled =>
    simp only [Shard.step] at hstep
    split at hstep
    · rename_i hgranted
      obtain rfl := Option.some.inj hstep
      exact h.stop hgranted (.inl rfl) horderly
    · cases hstep
  | aborted =>
    simp only [Shard.step] at hstep
    split at hstep
    · rename_i hgranted
      obtain rfl := Option.some.inj hstep
      exact h.stop hgranted (.inr rfl) horderly
    · cases hstep
  | others n =>
    obtain rfl := Option.some.inj hstep
    exact h.change s.neighbours s.confirmed s.preallocated n h.others (List.Sublist.refl _)
      (fun _ => ⟨rfl, fun _ hp => hp⟩) (fun _ _ hused => hused)

/-- A step that goes wrong is seen. -/
theorem Valid.lost (h : Valid s) (hwrong : ¬ Orderly s e) (hstep : Shard.step s e = some t) :
    ¬ Right t := by
  cases e with
  | expired =>
    simp only [Shard.step] at hstep
    split at hstep
    · rename_i hstate
      obtain rfl := Option.some.inj hstep
      have hclosed : s.contract = .closed := hstate.resolve_left hwrong
      have hstage := h.stage
      unfold Stage at hstage
      rw [hclosed] at hstage
      obtain ⟨-, -, ⟨id, hs, hmade⟩, -, -, -, hunused⟩ := hstage
      intro hr
      have hin : id ∈ s.made := by
        rw [hmade]
        simp
      obtain ⟨p, hp, he⟩ := List.any_eq_true.mp (hr.released rfl id hin (.inl hs))
      exact hunused p hp (of_decide_eq_true he ▸ hin)
    · cases hstep
  | saved ok =>
    obtain ⟨id, hs, rfl⟩ := Option.map_eq_some_iff.mp hstep
    obtain ⟨hclosed, hready⟩ := h.closed_of_saving hs
    cases ok with
    | true =>
      rw [if_pos rfl]
      cases hconfirming : s.confirming with
      | nil => simp [Orderly, hconfirming] at hwrong
      | cons next rest =>
        have hready' := hready
        rw [hconfirming] at hready'
        have hexpired : next ∉ s.preallocated := by simpa [Orderly, hconfirming] using hwrong
        rw [confirm_cons hready'.not_confirmed, if_neg hexpired]
        have hin : id ∈ s.confirmed ++ [id] := by simp
        exact lost_of_fail hready' hin
    | false =>
      have hsome : s.confirmed ≠ [] := hwrong
      obtain ⟨c, hc⟩ := List.exists_mem_of_ne_nil _ hsome
      exact lost_of_fail hready.not_saved hc
  | cancelled =>
    simp only [Shard.step] at hstep
    split at hstep
    · rename_i hgranted
      obtain rfl := Option.some.inj hstep
      exact h.lost_of_stop hgranted rfl hwrong
    · cases hstep
  | aborted =>
    simp only [Shard.step] at hstep
    split at hstep
    · rename_i hgranted
      obtain rfl := Option.some.inj hstep
      exact h.lost_of_stop hgranted rfl hwrong
    · cases hstep
  | _ => exact absurd trivial hwrong

end

end Feat.Agents.Shard
