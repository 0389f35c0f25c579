import Mathlib
import Feat.Lib.Run

/- Fibers (`feat.common.fiber`): what is asked of a fiber, and the Deferreds it becomes.

   A fiber is a list of callbacks and of fibers chained to it. `start` makes a Deferred of
   it and of each fiber within, and fires the first. The callbacks of a Deferred run one
   after the other; a chained fiber is fired where its turn comes, with its own trigger if
   it has one and with the result so far if it has none, and the Deferred goes on when the
   fiber is through. A callback may return a fiber, which is started, or a Deferred that is
   fired some time later; until then the program may do anything else.

   Deferreds are numbered in the order in which they are made. `calls` of one are the
   callbacks it has still to run. The callbacks that ran, with what each was given, are
   kept for the record.

   `Means` says what a fiber does without Deferreds. -/
namespace Feat.Fibers

/-- `FiberCancelled`, `FiberTriggerError` or what a callback raised. -/
inductive Failure (E : Type) where
  | cancelled
  | trigger
  | raised (error : E)
  deriving DecidableEq

/-- The result of a Deferred. -/
inductive Result (V E : Type) where
  | value (value : V)
  | failure (failure : Failure E)
  deriving DecidableEq

/-- `check(FiberCancelled)`. -/
def Result.isCancelled {V E : Type} : Result V E → Bool
  | .failure .cancelled => true
  | _ => false

/-- `_calls`, with the fibers that were chained: for each its trigger with its parameter, its
    canceller and its own calls. -/
inductive Calls (C V E K : Type) where
  | nil
  | callbacks (callback errback : Option C) (rest : Calls C V E K)
  | chain (trigger : Option (Result V E)) (canceller : Option K) (calls rest : Calls C V E K)
  deriving DecidableEq

/-- A fiber. It is triggered with a value, by `succeed`, or with a failure, by `fail`. -/
structure Fiber (C V E K : Type) where
  trigger : Option (Result V E)
  canceller : Option K
  calls : Calls C V E K
  deriving DecidableEq

namespace Calls
variable {C V E K : Type}

def append : Calls C V E K → Calls C V E K → Calls C V E K
  | .nil, calls => calls
  | .callbacks callback errback rest, calls => .callbacks callback errback (rest.append calls)
  | .chain trigger canceller inner rest, calls => .chain trigger canceller inner (rest.append calls)

/-- `_snapshot_callbacks`. -/
def snapshotCallbacks : Calls C V E K → List (Option C × Option C)
  | .nil => []
  | .callbacks callback errback rest => (callback, errback) :: rest.snapshotCallbacks
  | .chain _ _ inner rest => inner.snapshotCallbacks ++ rest.snapshotCallbacks

/-- The calls of a fiber with these callbacks and nothing chained to it. -/
def ofSnapshot : List (Option C × Option C) → Calls C V E K
  | [] => .nil
  | (callback, errback) :: rest => .callbacks callback errback (ofSnapshot rest)

/-- How many Deferreds the fibers chained need. -/
def size : Calls C V E K → Nat
  | .nil => 0
  | .callbacks _ _ rest => rest.size
  | .chain _ _ inner rest => 1 + inner.size + rest.size

end Calls

/-- `add_callbacks`. -/
def Fiber.addCallbacks {C V E K : Type} (f : Fiber C V E K) (callback errback : Option C) :
    Fiber C V E K :=
  { f with calls := f.calls.append (.callbacks callback errback .nil) }

/-- `chain`. -/
def Fiber.chain {C V E K : Type} (f g : Fiber C V E K) : Fiber C V E K :=
  { f with calls := f.calls.append (.chain g.trigger g.canceller g.calls .nil) }

/-- What a callback makes of a result: it returns or raises at once, or returns a Deferred that is
    not fired yet, or a fiber. -/
inductive Outcome (C V E K : Type) where
  | now (result : Result V E)
  | deferred
  | fiber (fiber : Fiber C V E K)

/-- The functions that are called, and whether a canceller `is_active`. -/
structure Functions (C V E K W : Type) where
  call : C → Result V E → W → W × Outcome C V E K
  isActive : K → W → Bool

/-- A callback as a Deferred has it: one of a fiber with a canceller, or `_on_chain_cb` for the
    Deferred of a chained fiber. -/
inductive Entry (C V E K : Type) where
  | wrapped (canceller : Option K) (callback errback : Option C)
  | onChain (trigger : Option (Result V E)) (d : Nat)

/-- `_prepare`, for a Deferred that was made already. -/
def prepare {C V E K : Type} (canceller : Option K) :
    Calls C V E K → Nat → List (List (Entry C V E K)) → List (List (Entry C V E K))
  | .nil, _, heap => heap
  | .callbacks callback errback rest, d, heap =>
    prepare canceller rest d (heap.modify d (· ++ [.wrapped canceller callback errback]))
  | .chain trigger canceller' inner rest, d, heap =>
    let cd := heap.length
    let heap' := prepare canceller' inner cd (heap ++ [[]])
    prepare canceller rest d (heap'.modify d (· ++ [.onChain trigger cd]))

section Running
variable {C V E K W : Type} (F : Functions C V E K W)

/-- `_callback_wrapper`, with what it called: a fiber that is cancelled calls nothing. -/
def callbackWrapper (canceller : Option K) (callback : C) (param : Result V E) (w : W) :
    W × List (C × Result V E) × Outcome C V E K :=
  if param.isCancelled then (w, [], .now param)
  else if canceller.any (fun k => !F.isActive k w) then (w, [], .now (.failure .cancelled))
  else ((F.call callback param w).1, [(callback, param)], (F.call callback param w).2)

/-- The callback or the errback, or `passthru`. -/
def attend (canceller : Option K) (callback errback : Option C) (result : Result V E) (w : W) :
    W × List (C × Result V E) × Outcome C V E K :=
  match result, callback, errback with
  | .value value, some callback, _ => callbackWrapper F canceller callback (.value value) w
  | .failure failure, _, some errback => callbackWrapper F canceller errback (.failure failure) w
  | _, _, _ => (w, [], .now result)

/-! ## Deferreds -/

/-- What the Deferred at the top of the stack is at: it has a result to go on with, or it waits for
    a Deferred that something else fires. The first Deferred was fired with the result of all when
    none is left. -/
inductive Mode (V E : Type) where
  | running (result : Result V E)
  | waiting
  deriving DecidableEq

/-- The Deferreds with the callbacks they have still to run, those that are started and not
    through, the innermost first, and the rest of the world. -/
structure Machine (C V E K W : Type) where
  heap : List (List (Entry C V E K))
  stack : List Nat
  mode : Mode V E
  world : W
  log : List (C × Result V E)

namespace Machine

/-- `start` of a fiber that is triggered: its Deferred is made, prepared and fired. -/
def start (m : Machine C V E K W) (f : Fiber C V E K) (trigger : Result V E) :
    Machine C V E K W :=
  { m with
    heap := prepare f.canceller f.calls m.heap.length (m.heap ++ [[]])
    stack := m.heap.length :: m.stack
    mode := .running trigger }

/-- What the callback that was called made of the result. -/
def settle (m : Machine C V E K W) : Outcome C V E K → Machine C V E K W
  | .now result => { m with mode := .running result }
  | .deferred => { m with mode := .waiting }
  | .fiber f =>
    match f.trigger with
    | some trigger => m.start f trigger
    | none => { m with mode := .running (.failure .trigger) }

/-- The next callback of the Deferred at the top, or its result for the one below. -/
def advance (m : Machine C V E K W) : Option (Machine C V E K W) :=
  match m.mode, m.stack with
  | .running result, d :: stack =>
    match m.heap[d]? with
    | some (.wrapped canceller callback errback :: rest) =>
      let attended := attend F canceller callback errback result m.world
      some ({ m with
        heap := m.heap.set d rest
        world := attended.1
        log := m.log ++ attended.2.1 }.settle attended.2.2)
    | some (.onChain trigger cd :: rest) =>
      some { m with
        heap := m.heap.set d rest
        stack := cd :: d :: stack
        mode := .running (trigger.getD result) }
    | _ => some { m with stack := stack }
  | _, _ => none

/-- Something fires the Deferred that is waited for, and may have changed the world. -/
def fired (m : Machine C V E K W) (result : Result V E) (w : W) : Option (Machine C V E K W) :=
  if m.mode matches .waiting then some { m with mode := .running result, world := w } else none

/-- A step takes the Deferreds on by themselves, or from outside. -/
def step (m : Machine C V E K W) : Option (Result V E × W) → Option (Machine C V E K W)
  | none => m.advance F
  | some (result, w) => m.fired result w

end Machine

/-- A program in which nothing was started. -/
def idle (w : W) : Machine C V E K W := ⟨[], [], .waiting, w, []⟩

/-! ## What a fiber does -/

/-- `Means F canceller calls result w events log result' w'`: the calls of a fiber make `result'` of
    `result` and take the world from `w` to `w'`, when the Deferreds they wait for are fired as
    `events` says, with the world by then. They call what `log` says. -/
inductive Means : Option K → Calls C V E K → Result V E → W → List (Result V E × W) →
    List (C × Result V E) → Result V E → W → Prop where
  | nil (canceller : Option K) (result : Result V E) (w : W) :
      Means canceller .nil result w [] [] result w
  | now {canceller callback errback rest result result₁ result' w w₁ w' events called log}
      (hattend : attend F canceller callback errback result w = (w₁, called, .now result₁))
      (hrest : Means canceller rest result₁ w₁ events log result' w') :
      Means canceller (.callbacks callback errback rest) result w events (called ++ log) result' w'
  | deferred {canceller callback errback rest result result₁ result' w w₁ w₂ w' events called log}
      (hattend : attend F canceller callback errback result w = (w₁, called, .deferred))
      (hrest : Means canceller rest result₁ w₂ events log result' w') :
      Means canceller (.callbacks callback errback rest) result w ((result₁, w₂) :: events)
        (called ++ log) result' w'
  | fiber {canceller callback errback rest result trigger result₁ result' w w₁ w₂ w' events₁ events₂
      called log₁ log₂} {f : Fiber C V E K}
      (hattend : attend F canceller callback errback result w = (w₁, called, .fiber f))
      (htrigger : f.trigger = some trigger)
      (hinner : Means f.canceller f.calls trigger w₁ events₁ log₁ result₁ w₂)
      (hrest : Means canceller rest result₁ w₂ events₂ log₂ result' w') :
      Means canceller (.callbacks callback errback rest) result w (events₁ ++ events₂)
        (called ++ log₁ ++ log₂) result' w'
  | untriggered {canceller callback errback rest result result' w w₁ w' events called log}
      {f : Fiber C V E K}
      (hattend : attend F canceller callback errback result w = (w₁, called, .fiber f))
      (htrigger : f.trigger = none)
      (hrest : Means canceller rest (.failure .trigger) w₁ events log result' w') :
      Means canceller (.callbacks callback errback rest) result w events (called ++ log) result' w'
  | chain {canceller canceller' trigger inner rest result result₁ result' w w₁ w' events₁ events₂
      log₁ log₂}
      (hinner : Means canceller' inner (trigger.getD result) w events₁ log₁ result₁ w₁)
      (hrest : Means canceller rest result₁ w₁ events₂ log₂ result' w') :
      Means canceller (.chain trigger canceller' inner rest) result w (events₁ ++ events₂)
        (log₁ ++ log₂) result' w'

end Running

/-- What was fired from outside in a run. -/
def fires {V E W : Type} (acts : List (Option (Result V E × W))) : List (Result V E × W) :=
  acts.reduceOption

end Feat.Fibers
