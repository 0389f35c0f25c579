import Mathlib.Data.List.Dedup
import Feat.Lib.Totals
import Feat.Common.ExpDict
import Feat.Agencies.UpdatesInFlight

/- Resources of an agent (`feat.agents.base.resource`): definitions of what there is,
   allocations confirmed in the descriptor of the agent, and allocations and changes
   that are pending in an `ExpDict` until they are confirmed, released or expire.

   Calls read both places. `confirm` and `allocate` put an entry into the descriptor
   by an update of `AgencyAgent`, which is run and saved later: between the call and
   the save the entry is in neither place.

   Amounts asked for are integers or strings, one or several a resource. Names are
   walked in the order of a `HashOrder`, sets of values too. A read of the pending
   entries is not said to pack the dictionary, which changes nothing that is live
   (`live_lazyPack`). What entries were created, and which were confirmed, is kept for
   the record; no code reads it. -/
namespace Feat.Agents
open Hash Expiring Feat.Common Feat.Agencies

/-- The order in which dictionaries and sets are walked. -/
structure Orders where
  names : HashOrder String
  values : HashOrder Int

/-! ## Amounts -/

/-- A set of numbers. -/
structure Values where
  elems : List Int
  nodup : elems.Nodup
  deriving DecidableEq

def Values.empty : Values := ⟨[], List.nodup_nil⟩

/-- `add`. -/
def Values.add (s : Values) (v : Int) : Values := ⟨s.elems.insert v, s.nodup.insert⟩

/-- `remove`. -/
def Values.remove (s : Values) (v : Int) : Values := ⟨s.elems.erase v, s.nodup.erase v⟩

/-- `set(values)`. -/
def Values.ofList (l : List Int) : Values := ⟨l.dedup, l.nodup_dedup⟩

/-- What `AllocatedScalar`, `AllocatedRange` and the modifications of both hold. -/
inductive Amount where
  | scalar (value : Int)
  | range (values : Values)
  deriving DecidableEq

/-- A parameter of a request. -/
inductive Param where
  | int (v : Int)
  | str (s : String)
  deriving DecidableEq

/-- The texts of `ValueError`s. -/
inductive ValueError where
  | invalidLiteral (s : String)
  | notPositive
  | releasedTooMuch
  | alreadyIn (v : Int) (values : Values)
  | notIn (v : Int) (values : Values)
  | negative (v : Int)
  deriving DecidableEq

/-- The texts of `DeclarationError`s. -/
inductive Declaration where
  | notPositive (first last : Int)
  | disordered (first last : Int)
  | badTotal (total : Param) (exp : ValueError)
  | badAmount (value : Param) (exp : ValueError)
  | commandFirst
  | included (value : Int) (resource : Values)
  | notIncluded (value : Int) (resource : Values)
  | unknownCommand (cmd : String)
  deriving DecidableEq

inductive Error where
  | notEnough (name : String) (allocated asked : Int)
  | valueAllocated (value : Int) (name : String)
  | unknownResource (name : String)
  | allocationNotFound (id : String)
  | declarationError (text : Declaration)
  | valueError (text : ValueError)
  | keyError (key : String)
  | attributeError
  | typeError
  | database (reason : String)
  deriving DecidableEq

/-- The error is a `NotEnoughResource`. -/
def Error.isNotEnough : Error → Bool
  | .notEnough _ _ _ | .valueAllocated _ _ => true
  | _ => false

def isSpace (c : Char) : Bool := c ∈ [' ', '\t', '\n', '\r', '\x0b', '\x0c']

/-- `strip`. -/
def strip (cs : List Char) : List Char :=
  ((cs.dropWhile isSpace).reverse.dropWhile isSpace).reverse

def digits (cs : List Char) : Option Int :=
  if cs ≠ [] ∧ cs.all Char.isDigit then some (Nat.ofDigitChars 10 cs 0) else none

/-- `int`. -/
def Param.toInt : Param → Except ValueError Int
  | .int v => .ok v
  | .str s =>
    let parsed := match strip s.toList with
      | '-' :: cs => (digits cs).map fun n => -n
      | '+' :: cs => digits cs
      | cs => digits cs
    match parsed with
    | some v => .ok v
    | none => .error (.invalidLiteral s)

/-- `zero` of the resource that an amount is of. -/
def Amount.zero : Amount → Amount
  | .scalar _ => .scalar 0
  | .range _ => .range .empty

/-- The body of the loop of `AllocatedRange.add`. -/
def addSigned (values : Values) (val : Int) : Except Error Values :=
  if val > 0 then
    if val ∈ values.elems then .error (.valueError (.alreadyIn val values))
    else .ok (values.add val)
  else
    if -val ∉ values.elems then .error (.valueError (.notIn (-val) values))
    else .ok (values.remove (-val))

/-- `add` of an allocated amount, and whether anything is left. -/
def Amount.add (orders : Orders) : Amount → Amount → Except Error (Amount × Bool)
  | .scalar value, .scalar other =>
    let tmp := value + other
    if tmp < 0 then .error (.valueError (.negative tmp)) else .ok (.scalar tmp, tmp ≠ 0)
  | .range values, .range other => do
    let values ← (orders.values.arrange other.elems).foldlM addSigned values
    return (.range values, 0 < values.elems.length)
  | _, _ => .error .attributeError

/-! ## Definitions -/

/-- `Range`, without its name. -/
structure Range where
  first : Nat
  last : Nat
  ordered : first ≤ last
  deriving DecidableEq

/-- `Scalar`, without its name. -/
structure Scalar where
  total : Nat
  deriving DecidableEq

inductive Definition where
  | range (r : Range)
  | scalar (s : Scalar)
  deriving DecidableEq

/-- `Range.__init__`. -/
def Range.new (first last : Param) : Except Error Range :=
  match first.toInt, last.toInt with
  | .ok first, .ok last =>
    if first < 0 ∨ last < 0 then .error (.declarationError (.notPositive first last))
    else if h : first > last then .error (.declarationError (.disordered first last))
    else .ok ⟨first.toNat, last.toNat, Int.toNat_le_toNat (Int.not_lt.mp h)⟩
  | .error e, _ | _, .error e => .error (.valueError e)

/-- `Scalar.__init__`. -/
def Scalar.new (total : Param) : Except Error Scalar :=
  match total.toInt with
  | .ok v => if v < 0 then .error (.declarationError (.badTotal total .notPositive)) else .ok ⟨v.toNat⟩
  | .error e => .error (.declarationError (.badTotal total e))

/-- `x.values`. -/
def Amount.getValues : Amount → Except Error Values
  | .range values => .ok values
  | .scalar _ => .error .attributeError

/-- `x.value`. -/
def Amount.getValue : Amount → Except Error Int
  | .scalar value => .ok value
  | .range _ => .error .attributeError

/-- `_value_free`. -/
def valueFree (allocations : List Amount) (value : Int) : Except Error Bool := do
  let values ← allocations.mapM Amount.getValues
  return ¬ values.any fun s => value ∈ s.elems

namespace Range

/-- `range(self.first, self.last + 1)`. -/
def bounds (r : Range) : List Int := (List.range' r.first (r.last + 1 - r.first)).map Int.ofNat

/-- The loop of `_find_free_values`: the values found, and how many are missing. -/
def findFree (allocations : List Amount) : List Int → Int → Except Error (List Int × Int)
  | [], number => .ok ([], number)
  | x :: xs, number =>
    if number < 1 then .ok ([], number)
    else do
      if ← valueFree allocations x then
        let (res, number) ← findFree allocations xs (number - 1)
        return (x :: res, number)
      else findFree allocations xs number

/-- `_find_free_values`. -/
def findFreeValues (r : Range) (name : String) (allocations : List Amount) (toAllocate : Int) :
    Except Error (List Int) := do
  let (res, number) ← findFree allocations r.bounds toAllocate
  if number > 0 then
    .error (.notEnough name (r.last - r.first - toAllocate + number) toAllocate)
  else return res

/-- `allocate`. -/
def allocate (r : Range) (name : String) (allocations : List Amount) :
    List Param → Except Error Amount
  | [.int number] => do return .range (.ofList (← r.findFreeValues name allocations number))
  | [.str _] => do
    -- a string is greater than any number, and nothing can be subtracted from it
    let _ ← valueFree allocations r.first
    .error .typeError
  | _ => .error .typeError

/-- `resource.values`, where the allocation may have no such resource. -/
def heldValues : Option Amount → Except Error Values
  | some amount => amount.getValues
  | none => .error .attributeError

/-- One parameter of `modify` under a command. -/
def command (r : Range) (name : String) (allocations : List Amount) (resource : Option Amount)
    (cmd : String) (param : Int) (res : Values) : Except Error Values :=
  if cmd = "add" then do
    return (← r.findFreeValues name allocations param).foldl Values.add res
  else if cmd = "add_specific" then do
    if ← valueFree allocations param then
      let held ← heldValues resource
      if param ∈ held.elems then .error (.declarationError (.included param held))
      else return res.add param
    else .error (.valueAllocated param name)
  else if cmd = "release" then do
    let held ← heldValues resource
    if param ∉ held.elems then .error (.declarationError (.notIncluded param held))
    else return res.add (-param)
  else .error (.declarationError (.unknownCommand cmd))

/-- The loop of `modify`. -/
def commands (r : Range) (name : String) (allocations : List Amount) (resource : Option Amount) :
    List Param → Option String → Values → Except Error Values
  | [], _, res => .ok res
  | .str cmd :: params, _, res => commands r name allocations resource params (some cmd) res
  | .int _ :: _, none, _ => .error (.declarationError .commandFirst)
  | .int param :: params, some cmd, res => do
    let res ← r.command name allocations resource cmd param res
    commands r name allocations resource params (some cmd) res

/-- `modify`. -/
def modify (r : Range) (name : String) (allocations : List Amount) (resource : Option Amount)
    (args : List Param) : Except Error Amount := do
  return .range (← r.commands name allocations resource args none .empty)

end Range

namespace Scalar

/-- `reduce`. -/
def reduce (allocations : List Amount) : Except Error Int := do
  let values ← allocations.mapM Amount.getValue
  return (values.map fun v => max v 0).sum

/-- The check that `allocate` and `modify` end with. -/
def within (s : Scalar) (name : String) (allocations : List Amount) (value : Int) :
    Except Error Amount := do
  let allocated ← reduce allocations
  if s.total < allocated + value then .error (.notEnough name allocated (allocated + value))
  else return .scalar value

/-- `allocate`. -/
def allocate (s : Scalar) (name : String) (allocations : List Amount) :
    List Param → Except Error Amount
  | [param] => match param.toInt with
    | .error e => .error (.declarationError (.badAmount param e))
    | .ok value =>
      if value ≤ 0 then .error (.declarationError (.badAmount (.int value) .notPositive))
      else s.within name allocations value
  | _ => .error .typeError

/-- `modify`. -/
def modify (s : Scalar) (name : String) (allocations : List Amount) (resource : Option Amount) :
    List Param → Except Error Amount
  | [param] => match param.toInt with
    | .error e => .error (.declarationError (.badAmount param e))
    | .ok value => do
      let current ← match resource with
        | some amount => amount.getValue
        | none => .ok 0
      if -value > current then .error (.declarationError (.badAmount (.int value) .releasedTooMuch))
      else s.within name allocations value
  | _ => .error .typeError

end Scalar

namespace Definition

def allocate (name : String) (allocations : List Amount) (args : List Param) :
    Definition → Except Error Amount
  | .range r => r.allocate name allocations args
  | .scalar s => s.allocate name allocations args

def modify (name : String) (allocations : List Amount) (resource : Option Amount)
    (args : List Param) : Definition → Except Error Amount
  | .range r => r.modify name allocations resource args
  | .scalar s => s.modify name allocations resource args

end Definition

/-! ## Entries and the descriptor -/

structure Allocation where
  id : String
  alloc : Dict String Amount

structure AllocationChange where
  id : String
  allocationId : String
  deltas : Dict String Amount

/-- What is pending. -/
inductive Entry where
  | allocation (a : Allocation)
  | change (c : AllocationChange)

def Entry.id : Entry → String
  | .allocation a => a.id
  | .change c => c.id

/-- `allocated_for`. -/
def Entry.allocatedFor (name : String) : Entry → Option Amount
  | .allocation a => a.alloc.lookup name
  | .change c => c.deltas.lookup name

/-- The resources of the change, those that the allocation does not have at zero. -/
def Allocation.widen (orders : Orders) (a : Allocation) (change : AllocationChange) :
    Dict String Amount :=
  (Dict.items orders.names change.deltas).foldl
    (fun alloc p => if (alloc.lookup p.1).isSome then alloc else alloc.insert p.1 p.2.zero) a.alloc

/-- One resource of the allocation in `apply`. -/
def applyDelta (orders : Orders) (deltas : Dict String Amount) (alloc : Dict String Amount)
    (p : String × Amount) : Except Error (Dict String Amount) :=
  match deltas.lookup p.1 with
  | none => .ok alloc
  | some delta => do
    let (amount, nonzero) ← p.2.add orders delta
    return if nonzero then alloc.insert p.1 amount else alloc.erase p.1

/-- `apply`. -/
def Allocation.apply (orders : Orders) (a : Allocation) (change : AllocationChange) :
    Except Error Allocation := do
  let alloc := a.widen orders change
  let alloc ← (Dict.items orders.names alloc).foldlM (applyDelta orders change.deltas) alloc
  return { a with alloc }

/-- The descriptor, as far as resources are concerned. -/
structure Descriptor where
  rev : String
  allocations : Dict String Allocation

def Descriptor.withRev (desc : Descriptor) (rev : String) : Descriptor := { desc with rev }

/-- The functions that the descriptor is updated with: `do_append`, `do_apply_modification` and
`do_remove`. -/
inductive Update where
  | append (allocation : Allocation)
  | applyModification (change : AllocationChange)
  | remove (allocation : Allocation)

/-- What an update does to a copy of the descriptor, and returns. -/
def exec (orders : Orders) : Update → Descriptor → Except Error (Descriptor × Option Allocation)
  | .append a, desc => .ok ({ desc with allocations := desc.allocations.insert a.id a }, some a)
  | .applyModification c, desc => match desc.allocations.lookup c.allocationId with
    | none => .error (.keyError c.allocationId)
    | some a => do
      let a ← a.apply orders c
      return ({ desc with allocations := desc.allocations.insert c.allocationId a }, some a)
  | .remove a, desc =>
    if (desc.allocations.lookup a.id).isNone then .ok (desc, none)
    else .ok ({ desc with allocations := desc.allocations.erase a.id }, some a)

/-- The update that `_append_to_descriptor` makes for an entry. -/
def Entry.update : Entry → Update
  | .allocation a => .append a
  | .change c => .applyModification c

/-! ## Resources -/

/-- The parameters of a request, a tuple of them a resource. -/
abbrev Params : Type := Dict String (List Param)

abbrev Agent : Type := AgencyAgent Update Descriptor (Option Allocation) Error

/-- A call of `confirm` that has taken a pending entry: the number of its update, the id, and the
entry with its expiration. -/
structure Confirm where
  no : Nat
  id : String
  exp : Option ℚ
  entry : Entry

/-- `Resources`, with the time and the agent it belongs to. -/
structure Resources where
  now : ℚ
  definitions : Dict String Definition
  idAutoincrement : Nat
  modifications : ExpDict String Entry
  agent : Agent
  issued : List (Entry × Params)
  confirms : List Confirm

/-- `ALLOCATION_TIMEOUT`, which is `preallocation_timeout` too. -/
def allocationTimeout : ℚ := 10

/-- What a call returns: nothing, an entry, a fiber that has the allocation already or waits for an
update, or it raises. -/
inductive Reply where
  | none
  | entry (e : Entry)
  | done (a : Allocation)
  | deferred (no : Nat)
  | raised (e : Error)

namespace Resources
variable (orders : Orders)

/-- `init_state`, for an agent with a descriptor. -/
def new (now : ℚ) (desc : Descriptor) : Resources :=
  ⟨now, ∅, 1, .new none, .new desc, [], []⟩

/-- `_get_confirmed`. -/
def getConfirmed (s : Resources) : Dict String Allocation := s.agent.getDescriptor.allocations

/-- `_get_definition`. -/
def getDefinition (s : Resources) (name : String) : Except Error Definition :=
  match s.definitions.lookup name with
  | some definition => .ok definition
  | none => .error (.unknownResource name)

/-- `state.modifications.values()`. -/
def modified (s : Resources) : List Entry :=
  (liveItems orders.names s.now s.modifications.items).filterMap fun p => p.2.value

/-- `_get_allocated`. -/
def getAllocated (s : Resources) (name : String) : List Amount :=
  ((Dict.values orders.names s.getConfirmed).map Entry.allocation ++ s.modified orders).filterMap
    (Entry.allocatedFor name)

/-- `_next_id`. -/
def nextId (s : Resources) : String := toString s.idAutoincrement

/-- The loop of `_generate_allocation`. -/
def allocateAll (s : Resources) (params : Params) : Except Error (Dict String Amount) :=
  (Dict.items orders.names params).foldlM (fun allocations p => do
    let definition ← s.getDefinition p.1
    let allocated ← definition.allocate p.1 (s.getAllocated orders p.1) p.2
    return allocations.insert p.1 allocated) ∅

/-- The loop of `_generate_allocation_change`. -/
def modifyAll (s : Resources) (alloc : Allocation) (params : Params) :
    Except Error (Dict String Amount) :=
  (Dict.items orders.names params).foldlM (fun deltas p => do
    let definition ← s.getDefinition p.1
    let delta ← definition.modify p.1 (s.getAllocated orders p.1) (alloc.alloc.lookup p.1) p.2
    return deltas.insert p.1 delta) ∅

/-- An entry was created, with the next id. -/
def issue (s : Resources) (entry : Entry) (params : Params) : Resources :=
  { s with
    idAutoincrement := s.idAutoincrement + 1
    issued := s.issued ++ [(entry, params)] }

/-- `_generate_allocation`. -/
def generateAllocation (s : Resources) (params : Params) : Except Error (Resources × Allocation) := do
  let alloc ← s.allocateAll orders params
  let a : Allocation := ⟨s.nextId, alloc⟩
  return (s.issue (.allocation a) params, a)

/-- `_generate_allocation_change`. -/
def generateAllocationChange (s : Resources) (alloc : Allocation) (params : Params) :
    Except Error (Resources × AllocationChange) := do
  let deltas ← s.modifyAll orders alloc params
  let c : AllocationChange := ⟨s.nextId, alloc.id, deltas⟩
  return (s.issue (.change c) params, c)

/-- `state.modifications.set`. -/
def keep (s : Resources) (entry : Entry) : Resources :=
  { s with
    modifications := s.modifications.set orders.names s.now entry.id (some entry)
      (some allocationTimeout) true }

/-- `update_descriptor`, as `_append_to_descriptor` and `_remove_allocation_from_descriptor`
call it. -/
def send (s : Resources) (update : Update) : Resources × Reply :=
  ({ s with agent := s.agent.updateDescriptor update }, .deferred s.agent.calls.length)

/-- `preallocate`. -/
def preallocate (s : Resources) (params : Params) : Resources × Reply :=
  match s.generateAllocation orders params with
  | .ok (s, alloc) => (s.keep orders (.allocation alloc), .entry (.allocation alloc))
  | .error e => (s, if e.isNotEnough then .none else .raised e)

/-- `allocate`. -/
def allocate (s : Resources) (params : Params) : Resources × Reply :=
  match s.generateAllocation orders params with
  | .ok (s, alloc) => s.send (.append alloc)
  | .error e => (s, .raised e)

/-- `premodify`. -/
def premodify (s : Resources) (allocationId : String) (params : Params) : Resources × Reply :=
  match s.getConfirmed.lookup allocationId with
  | none => (s, .raised (.allocationNotFound allocationId))
  | some alloc => match s.generateAllocationChange orders alloc params with
    | .ok (s, change) => (s.keep orders (.change change), .entry (.change change))
    | .error e => (s, if e.isNotEnough then .none else .raised e)

/-- `confirm`. -/
def confirm (s : Resources) (allocationId : String) : Resources × Reply :=
  let exp := (live s.now s.modifications.items allocationId).bind Item.exp
  let (modifications, result) :=
    s.modifications.pop orders.names s.now allocationId (some none)
  let s := { s with modifications }
  match result with
  | .value (some entry) =>
    let confirms := s.confirms ++ [⟨s.agent.calls.length, allocationId, exp, entry⟩]
    { s with confirms }.send entry.update
  | _ => match s.getConfirmed.lookup allocationId with
    | some alloc => (s, .done alloc)
    | none => (s, .raised (.allocationNotFound allocationId))

/-- `release`. -/
def release (s : Resources) (allocationId : String) : Resources × Reply :=
  let (modifications, item) := s.modifications.getItem orders.names s.now allocationId
  let s := { s with modifications }
  match s.getConfirmed.lookup allocationId, item with
  | some toRemove, _ => s.send (.remove toRemove)
  | none, some _ =>
    let (modifications, _) := s.modifications.step orders.names s.now (.delItem allocationId)
    ({ s with modifications }, .none)
  | none, none => (s, .raised (.allocationNotFound allocationId))

/-- What a definition is made from. -/
inductive Factory where
  | range (first last : Param)
  | scalar (total : Param)

/-- The call of the factory. -/
def Factory.build : Factory → Except Error Definition
  | .range first last => (Range.new first last).map Definition.range
  | .scalar total => (Scalar.new total).map Definition.scalar

/-- `define`. -/
def define (s : Resources) (name : String) (factory : Factory) : Resources × Reply :=
  match factory.build with
  | .ok definition => ({ s with definitions := s.definitions.insert name definition }, .none)
  | .error e => (s, .raised e)

/-- What happens: time passes, a call, or the agent goes on with the updates of its descriptor. -/
inductive Event where
  | tick (now : ℚ)
  | define (name : String) (factory : Factory)
  | preallocate (params : Params)
  | allocate (params : Params)
  | premodify (allocationId : String) (params : Params)
  | confirm (allocationId : String)
  | release (allocationId : String)
  | run
  | saved (k : Nat) (rev : String)
  | failed (k : Nat) (error : Error)
  | next

/-- What it is to the agent, if the agent does it. -/
def Event.ofAgent : Event → Option (AgencyAgent.Event Update String Error)
  | .run => some .run
  | .saved k rev => some (.saved k rev)
  | .failed k error => some (.failed k error)
  | .next => some .next
  | _ => none

/-- The agent goes on. -/
def agentStep (s : Resources) (event : AgencyAgent.Event Update String Error) : Option Resources :=
  (s.agent.step (exec orders) Descriptor.withRev event).map fun agent => { s with agent }

/-- One event, when it can happen. -/
def step (s : Resources) : Event → Option Resources
  | .tick now => if s.now ≤ now then some { s with now } else none
  | .define name factory => some (s.define name factory).1
  | .preallocate params => some (s.preallocate orders params).1
  | .allocate params => some (s.allocate orders params).1
  | .premodify id params => some (s.premodify orders id params).1
  | .confirm id => some (s.confirm orders id).1
  | .release id => some (s.release orders id).1
  | .run => s.agentStep orders .run
  | .saved k rev => s.agentStep orders (.saved k rev)
  | .failed k error => s.agentStep orders (.failed k error)
  | .next => s.agentStep orders .next

end Resources
end Feat.Agents
