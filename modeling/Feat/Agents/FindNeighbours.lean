import Mathlib.Data.List.Sort
import Mathlib.Order.Defs.LinearOrder

/- The search for neighbours of a shard agent (`FindNeighboursManager` of
   `feat.agents.shard.shard_agent`), with the part of its contract that follows the bids and the
   allocations of the agent that it makes.

   Recipients are known by the key of the agent. A preallocation expires at any time until it is
   confirmed; `confirm` puts it into the descriptor by an update that is saved later, and until then
   it counts neither as preallocated nor as confirmed. What other protocols of the agent hold is a
   number. An allocation has an id that none had before.

   A contractor that was granted its bid sets up partnerships with the allocations of the grant, or
   has them released, and then reports (`FindNeighboursContractor.granted`); a partner that leaves
   takes its allocation with it. The handlers of the manager's side are called at once. -/
namespace Feat.Agents.Shard

inductive SolutionType where
  | join
  | divorce
  deriving DecidableEq, Repr

/-- The allocations that a bid takes. -/
def SolutionType.slots : SolutionType → Nat
  | .join => 1
  | .divorce => 2

structure Bid (Key : Type) where
  replyTo : Key
  solutionType : SolutionType
  cost : Int
  myNeighbours : List Key
  deriving DecidableEq, Repr

structure Grant (Key : Type) where
  joiningAgent : Key
  solutionType : SolutionType
  allocations : List Nat
  toDivorce : Option Key
  deriving DecidableEq, Repr

section
variable {Key : Type} [LinearOrder Key]

/-! ## Choosing the bids -/

/-- `Bid.pick_best`. -/
def Bid.pickBest (bids : List (Bid Key)) (number : Nat) : List (Bid Key) :=
  (bids.mergeSort fun a b => a.cost ≤ b.cost).take number

/-- `_remove_incorrect_choices`. -/
def removeIncorrectChoices (incorrectChoices : List Key) (bids : List (Bid Key)) :
    List (Bid Key) :=
  bids.filter fun bid => bid.replyTo ∉ incorrectChoices

/-- `_categorize`, for one type. -/
def categorize (solutionType : SolutionType) (bids : List (Bid Key)) : List (Bid Key) :=
  bids.filter fun bid => bid.solutionType = solutionType

/-- The last bid of an agent, which is the one a dictionary keeps. -/
def bidOf (bids : List (Bid Key)) (key : Key) : Option (Bid Key) :=
  bids.reverse.find? fun bid => bid.replyTo = key

/-- `shard_info`, where it is known: how many neighbours an agent has, and how many of them are
kings. -/
def shardInfo (allBids : List (Bid Key)) (key : Key) : Nat × Nat :=
  match bidOf allBids key with
  | some bid => (bid.myNeighbours.length,
      bid.myNeighbours.countP fun y => (bidOf allBids y).isSome)
  | none => (3, 0)

/-- What the divorce of an agent from a neighbour is sorted by. -/
def divorceValues (allBids : List (Bid Key)) (d : Key × Key) : List Nat :=
  let values := shardInfo allBids d.1
  let neighbourValues := shardInfo allBids d.2
  [values.1, values.2, neighbourValues.1, neighbourValues.2]

/-- The order of the divorces. -/
def precedes (allBids : List (Bid Key)) (d e : Key × Key) : Bool :=
  let values := divorceValues allBids d
  let values' := divorceValues allBids e
  values < values' ∨ (values = values' ∧ (d.1 < e.1 ∨ (d.1 = e.1 ∧ d.2 < e.2)))

/-- `possible_divorces`. -/
def possibleDivorces (incorrectChoices : List Key) (divorceBids allBids : List (Bid Key)) :
    List (Key × Key) :=
  (allBids.map (·.replyTo)).dedup.flatMap fun divorcer =>
    match bidOf allBids divorcer with
    | some bid => (bid.myNeighbours.filter fun neighbour =>
        neighbour ∉ incorrectChoices ∧ (bidOf divorceBids divorcer).isSome).map (divorcer, ·)
    | none => []

/-- `_pick_divorce_bid`. -/
def pickDivorceBid (incorrectChoices : List Key) (divorceBids allBids : List (Bid Key)) :
    Option (Bid Key) := do
  let divorces := possibleDivorces incorrectChoices divorceBids allBids
  let best ← divorces.foldl (fun best d => match best with
    | some b => some (if precedes allBids b d then d else b)
    | none => some d) none
  let bid ← bidOf divorceBids best.1
  some { bid with myNeighbours := [best.2] }

/-- `joins[0:free_slots]`. -/
def slice (joins : List (Bid Key)) (freeSlots : Int) : List (Bid Key) :=
  if 0 ≤ freeSlots then joins.take freeSlots.toNat
  else joins.take (joins.length - freeSlots.natAbs)

/-- The bids that `closed` grants, and the slots they need. -/
def choose (freeSlots : Int) (joins : List (Bid Key)) (bestDivorce : Option (Bid Key)) :
    Option (List (Bid Key) × Nat) :=
  if freeSlots = 0 then none
  else if freeSlots = 1 then
    match joins with
    | join :: _ => some ([join], 1)
    | [] => none
  else if joins.length > 1 then
    let toGrant := slice joins freeSlots
    some (toGrant, toGrant.length)
  else
    match bestDivorce, joins with
    | some divorce, _ => some ([divorce], 2)
    | none, [join] => some ([join], 1)
    | none, _ => none

/-! ## The manager and the allocations -/

/-- `ContractState`, from the announcement on. -/
inductive ContractState where
  | announced
  | closed
  | granted
  | completed
  | expired
  | terminated
  | cancelled
  | aborted
  | wtf
  deriving DecidableEq, Repr

/-- The contract has ended. -/
def ContractState.ended : ContractState → Bool
  | .announced | .closed | .granted => false
  | _ => true

/-- The manager, its contract, and the slots for neighbours of its agent: how many there are, what
others hold, the preallocations, the allocation that is being saved and those that are confirmed.
`neighbours` are the partners with their allocations. `confirming` are the allocations still to be
confirmed for the bids in `toGrant`, `freeSlots` is what `closed` counted, `made` what it made,
and `reported` the grants that were reported. -/
structure System (Key : Type) where
  own : Key
  neighbours : List (Key × Nat)
  total : Nat
  others : Nat
  preallocated : List Nat
  saving : Option Nat
  confirmed : List Nat
  nextId : Nat
  contract : ContractState
  allocations : List Nat
  confirming : List Nat
  toGrant : List (Bid Key)
  freeSlots : Int
  made : List Nat
  grants : List (Bid Key × Grant Key)
  reported : List Nat

namespace System

/-- The manager has announced the contract. -/
def new (own : Key) (neighbours : List (Key × Nat)) (total others : Nat) : System Key where
  own := own
  neighbours := neighbours
  total := total
  others := others
  preallocated := []
  saving := none
  confirmed := []
  nextId := (neighbours.map Prod.snd).foldr max 0 + 1
  contract := .announced
  allocations := []
  confirming := []
  toGrant := []
  freeSlots := 0
  made := []
  grants := []
  reported := []

/-- What `list_resource` counts as allocated. -/
def allocated (s : System Key) : Nat := s.others + s.preallocated.length + s.confirmed.length

/-- `_count_free_slots`. -/
def countFreeSlots (s : System Key) : Int := s.total - s.allocated

/-- `allocation_used`. -/
def allocationUsed (s : System Key) (id : Nat) : Bool := s.neighbours.any (·.2 = id)

/-- An allocation is confirmed, or being confirmed. -/
def Held (s : System Key) (id : Nat) : Prop := s.saving = some id ∨ id ∈ s.confirmed

instance (s : System Key) (id : Nat) : Decidable (s.Held id) := inferInstanceAs (Decidable (_ ∨ _))

/-- `_get_incorrect_choices`. -/
def getIncorrectChoices (s : System Key) : List Key := s.own :: s.neighbours.map Prod.fst

/-- The preallocations of `_allocate_slots`, up to one that is refused. -/
def preallocate (s : System Key) : Nat → Bool × System Key
  | 0 => (true, s)
  | needed + 1 =>
    if s.allocated < s.total then
      preallocate { s with
        preallocated := s.preallocated ++ [s.nextId]
        allocations := s.allocations ++ [s.nextId]
        made := s.made ++ [s.nextId]
        nextId := s.nextId + 1 } needed
    else (false, s)

/-- The contract ends, where it has not ended before. -/
def finalize (contract : ContractState) (s : System Key) : System Key :=
  if s.contract.ended then s else { s with contract := contract }

/-- An error in the chain that `closed` returns. -/
def fail (s : System Key) : System Key := { s.finalize .wtf with confirming := [] }

end System

/-- `_prepare_grant`, with the allocations that are left. -/
def prepareGrant (own : Key) (allocations : List Nat) (bid : Bid Key) :
    Option (Grant Key × List Nat) :=
  match bid.solutionType, allocations with
  | .join, a :: rest => some (⟨own, .join, [a], none⟩, rest)
  | .divorce, a :: b :: rest =>
    bid.myNeighbours.head?.map fun toDivorce => (⟨own, .divorce, [a, b], some toDivorce⟩, rest)
  | _, _ => none

/-- `_prepare_grants`. -/
def prepareGrants (own : Key) (allocations : List Nat) :
    List (Bid Key) → Option (List (Bid Key × Grant Key) × List Nat)
  | [] => some ([], allocations)
  | bid :: bids => do
    let (grant, rest) ← prepareGrant own allocations bid
    let (grants, rest) ← prepareGrants own rest bids
    some ((bid, grant) :: grants, rest)

namespace System

/-- The grants are prepared and given to `grant` of the medium, which ignores them where the
contract is not closed. -/
def grant (s : System Key) : System Key :=
  match prepareGrants s.own s.allocations s.toGrant with
  | some (grants, allocations) =>
    if s.contract = .closed then { s with contract := .granted, allocations, grants }
    else { s with allocations }
  | none => s.fail

/-- `confirm_allocation` for the allocations that are left, up to the first that has to be saved. -/
def confirm (s : System Key) : List Nat → System Key
  | [] => { s with confirming := [] }.grant
  | id :: rest =>
    if id ∈ s.preallocated then
      { s with
        preallocated := s.preallocated.erase id
        saving := some id
        confirming := rest }
    else if id ∈ s.confirmed then s.confirm rest
    else s.fail

/-- `closed`. -/
def closed (bids : List (Bid Key)) (s : System Key) : System Key :=
  let s := { s with contract := .closed, freeSlots := s.countFreeSlots }
  let bids := removeIncorrectChoices s.getIncorrectChoices bids
  let joins := Bid.pickBest (categorize .join bids) 3
  let bestDivorce := pickDivorceBid s.getIncorrectChoices (categorize .divorce bids) bids
  match choose s.freeSlots joins bestDivorce with
  | none => s.finalize .terminated
  | some (toGrant, needed) =>
    match { s with toGrant }.preallocate needed with
    | (true, s) => s.confirm s.allocations
    | (false, s) => s.fail

/-- `release_resource`, which fails where there is no such allocation. -/
def releaseResource (id : Nat) (s : System Key) : Option (System Key) :=
  if id ∈ s.confirmed then some { s with confirmed := s.confirmed.erase id }
  else if id ∈ s.preallocated then some { s with preallocated := s.preallocated.erase id }
  else none

/-- `_release_unused_allocations`, up to a release that fails. -/
def releaseUnusedAllocations (s : System Key) : List Nat → System Key
  | [] => s
  | id :: rest =>
    if s.allocationUsed id then s.releaseUnusedAllocations rest
    else match s.releaseResource id with
      | some s => s.releaseUnusedAllocations rest
      | none => s

/-- `cancelled` and `aborted`. -/
def stop (contract : ContractState) (s : System Key) : System Key :=
  { s with contract := contract }.releaseUnusedAllocations s.allocations

end System

/-! ## Runs -/

/-- The bids are in, the contract expires before it is granted, the descriptor is saved or not, a
preallocation expires, a partner is set up with an allocation of a grant or leaves, a contractor
releases an allocation or reports, the contract is cancelled by a contractor or times out, and other
protocols take and give back slots. -/
inductive Event (Key : Type) where
  | closed (bids : List (Bid Key))
  | expired
  | saved (ok : Bool)
  | preallocationExpired (id : Nat)
  | established (neighbour : Key) (id : Nat)
  | left (neighbour : Key) (id : Nat)
  | released (id : Nat)
  | reported (grant : Nat)
  | cancelled
  | aborted
  | others (n : Nat)

/-- The allocations that were granted. -/
def System.granted (s : System Key) : List Nat := s.grants.flatMap (·.2.allocations)

/-- One event. -/
def step (s : System Key) : Event Key → Option (System Key)
  | .closed bids => if s.contract = .announced then some (s.closed bids) else none
  | .expired =>
    if s.contract = .announced ∨ s.contract = .closed then some { s with contract := .expired }
    else none
  | .saved ok =>
    s.saving.map fun id =>
      if ok then
        { s with saving := none, confirmed := s.confirmed ++ [id] }.confirm s.confirming
      else { s with saving := none }.fail
  | .preallocationExpired id =>
    if id ∈ s.preallocated then some { s with preallocated := s.preallocated.erase id } else none
  | .established neighbour id =>
    if id ∈ s.granted then
      some { s with neighbours := s.neighbours ++ [(neighbour, id)] }
    else none
  | .left neighbour id =>
    if (neighbour, id) ∈ s.neighbours then
      some { s with
        neighbours := s.neighbours.erase (neighbour, id)
        confirmed := s.confirmed.erase id }
    else none
  | .released id =>
    if id ∈ s.granted ∧ ¬ s.allocationUsed id then some ((s.releaseResource id).getD s) else none
  | .reported i => do
    let (_, grant) ← s.grants[i]?
    if s.contract = .granted ∧ ∀ id ∈ grant.allocations, s.Held id → s.allocationUsed id then
      let reported := i :: s.reported
      some (if ∀ j < s.grants.length, j ∈ reported then
          { s with reported, contract := .completed }
        else { s with reported })
    else none
  | .cancelled => if s.contract = .granted then some (s.stop .cancelled) else none
  | .aborted => if s.contract = .granted then some (s.stop .aborted) else none
  | .others n => some { s with others := n }

end
end Feat.Agents.Shard
