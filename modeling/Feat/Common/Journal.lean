import Feat.Lib.Programs

/- Recorded functions, the journal entries they are recorded in, and the replay of an entry.

   A recorded function is a program over the state of its recorder: it calls side effects and other
   recorded functions. The wrappers of both look up the mode of the section they are called in.
   Recording and replay are so two handlers of one program (`recording`, `replaying`): the first
   performs the side effects and writes them into the entry, the second takes their results out of
   it. A side effect has its place in the entry before it is performed, and fills it only when it
   has returned. -/
namespace Feat.Common.Journal
open Programs

/-- What the journal asks of a value. -/
class Value (V : Type) where
  isDeferred : V → Bool
  isFiber : V → Bool

/-- An exception: of the code that is recorded, or of the journal. `unpack` is the error of an
assignment to five names from an empty list. -/
inductive Error (V X : Type) where
  | raised (x : X)
  | sideEffectResultError (message : String)
  | recordingResultError (message : String)
  | reentrantCallError (message : String)
  | replayError (message : String)
  | unexpectedArguments (functionId : String) (args expected : Option (List V))
  | unexpectedKeywords (functionId : String) (kwargs expected : Option (List (String × V)))
  | unpack
  deriving DecidableEq, Repr

/-- What is raised: an exception, or a `Failure` of it, which is no exception itself. -/
inductive Thrown (V X : Type) where
  | exception (e : Error V X)
  | failure (e : Error V X)
  deriving DecidableEq, Repr

/-- What a function returns or raises. -/
abbrev Answer (V X : Type) : Type := Except (Thrown V X) V

/-- What a recorded call gives: a value, or a fiber that fails. -/
inductive Result (V X : Type) where
  | value (v : V)
  | fail (e : Error V X)
  deriving DecidableEq, Repr

/-- The call of a side effect. -/
structure Call (V : Type) where
  name : String
  args : List V
  kwargs : List (String × V)
  deriving DecidableEq, Repr

/-- A recorded function, as its wrapper calls it. -/
structure Recorded where
  functionId : String
  reentrant : Bool
  deriving DecidableEq, Repr

/-- The functions that are recorded, by their arguments. -/
abbrev Function (S V X : Type) : Type :=
  List V → List (String × V) → Program S (Call V) Recorded (Answer V X)

/-- The serializer and the unserializer, at one type. -/
structure Codec (α F V X : Type) where
  convert : α → Except (Error V X) F
  restore : F → α

/-- The journal keeper. -/
structure Keeper (V F X : Type) where
  args : Codec (Option (List V)) F V X
  kwargs : Codec (Option (List (String × V))) F V X
  result : Codec V F V X
  freeze : Result V X → Except (Error V X) F

/-- What is converted is restored. -/
def Codec.RoundTrip {α F V X : Type} (c : Codec α F V X) : Prop :=
  ∀ a f, c.convert a = .ok f → c.restore f = a

structure Keeper.RoundTrip {V F X : Type} (k : Keeper V F X) : Prop where
  args : k.args.RoundTrip
  kwargs : k.kwargs.RoundTrip
  result : k.result.RoundTrip

/-- `args or None`. -/
def orNone {α : Type} : List α → Option (List α)
  | [] => none
  | a :: l => some (a :: l)

/-- An effect that was added to a side effect. -/
structure Effect (F : Type) where
  effectId : String
  args : F
  kwargs : F
  deriving DecidableEq, Repr

/-- The record of a side effect. -/
structure SideEffect (F : Type) where
  functionId : String
  args : F
  kwargs : F
  effects : List (Effect F)
  result : F
  deriving DecidableEq, Repr

/-- The callable of a side effect: it may add effects, and ends in a world. -/
inductive Callable (W V X : Type) where
  | done (answer : Answer V X) (world : W)
  | addEffect (effectId : String) (args : List V) (kwargs : List (String × V))
      (k : Except (Error V X) Unit → Callable W V X)

/-- What the side effects do. -/
abbrev Environment (W V X : Type) : Type := Call V → W → Callable W V X

section
variable {S W V F X : Type} [Value V]

/-! ## Side effects -/

/-- `_check_side_effet_result`. -/
def checkSideEffectResult (name : String) (result : V) : Except (Error V X) V :=
  if Value.isDeferred result then
    .error (.sideEffectResultError ("Side-effect functions " ++ name ++ " cannot return Deferred"))
  else if Value.isFiber result then
    .error (.sideEffectResultError ("Side-effect functions " ++ name ++ " cannot return IFiber"))
  else .ok result

/-- `StupidJournalSideEffect.add_effect`. -/
def addEffect (k : Keeper V F X) (effectId : String) (args : List V)
    (kwargs : List (String × V)) : Except (Error V X) (Effect F) := do
  let args ← k.args.convert (some args)
  let kwargs ← k.kwargs.convert (some kwargs)
  return ⟨effectId, args, kwargs⟩

/-- The callable runs, and its effects are added. -/
def Callable.run (k : Keeper V F X) : Callable W V X → List (Effect F) →
    Answer V X × List (Effect F) × W
  | .done answer world, effects => (answer, effects, world)
  | .addEffect effectId args kwargs next, effects =>
    match Journal.addEffect k effectId args kwargs with
    | .ok effect => (next (.ok ())).run k (effects ++ [effect])
    | .error e => (next (.error e)).run k effects

/-- The arguments of a new side effect. -/
def newSideEffect (k : Keeper V F X) (c : Call V) : Except (Error V X) (F × F) := do
  let args ← k.args.convert (orNone c.args)
  let kwargs ← k.kwargs.convert (orNone c.kwargs)
  return (args, kwargs)

/-- The result of a side effect is checked and frozen. -/
def setResult (k : Keeper V F X) (name : String) (result : V) : Except (Error V X) F := do
  let result ← checkSideEffectResult name result
  k.result.convert result

/-- A side effect in a section that records, up to `commit`. -/
def perform (k : Keeper V F X) (env : Environment W V X) (c : Call V) (world : W) :
    Except (Thrown V X) (V × SideEffect F) × W :=
  match newSideEffect k c with
  | .error e => (.error (.exception e), world)
  | .ok (args, kwargs) =>
    match (env c world).run k [] with
    | (.error t, _, world) => (.error t, world)
    | (.ok v, effects, world) =>
      match setResult k c.name v with
      | .ok result => (.ok (v, ⟨c.name, args, kwargs, effects, result⟩), world)
      | .error e => (.error (.exception e), world)

/-! ## The two modes -/

/-- The check of the result in `_call_fun`. -/
def callFun (functionId : String) : Answer V X → Answer V X
  | .ok v =>
    if Value.isDeferred v then
      .error (.exception (.recordingResultError
        ("Recorded functions " ++ functionId ++ " cannot return Deferred")))
    else .ok v
  | .error t => .error t

/-- The error of a function that is called where it must not be. -/
def reentrantCall (functionId : String) : Answer V X :=
  .error (.exception (.reentrantCallError ("Recorded functions " ++ functionId ++
    " cannot be called from inside the recording section")))

/-- A section that records: the world, and the records of the side effects. A record is empty from
the start of its side effect to `commit`. -/
structure Recording (W F : Type) where
  world : W
  sideEffects : List (Option (SideEffect F))

/-- The wrappers in a section that records. -/
def recording (k : Keeper V F X) (env : Environment W V X) :
    Handler (Recording W F) (Call V) Recorded (Answer V X) where
  ask c r :=
    match perform k env c r.world with
    | (.ok (v, effect), world) => (.ok v, ⟨world, r.sideEffects ++ [some effect]⟩)
    | (.error t, world) => (.error t, ⟨world, r.sideEffects ++ [none]⟩)
  refuse f := if f.reentrant then none else some (reentrantCall f.functionId)
  leave f := callFun f.functionId

/-- An entry that is replayed: its records, how many of them are consumed, and the effects given to
the effect handler. -/
structure ReplayEntry (V F : Type) where
  sideEffects : List (Option (SideEffect F))
  nextEffect : Nat
  applied : List (String × List V × List (String × V))

/-- The arguments of an effect, as the effect handler is given them. -/
def Effect.restore (k : Keeper V F X) (e : Effect F) : String × List V × List (String × V) :=
  (e.effectId, (k.args.restore e.args).getD [], (k.kwargs.restore e.kwargs).getD [])

/-- `next_side_effect`. -/
def nextSideEffect [DecidableEq V] (k : Keeper V F X) (c : Call V) (e : ReplayEntry V F) :
    Answer V X × ReplayEntry V F :=
  match e.sideEffects[e.nextEffect]? with
  | none =>
    (.error (.exception (.replayError ("Unexpected side-effect function '" ++ c.name ++ "'"))), e)
  | some none => (.error (.exception .unpack), e)
  | some (some expected) =>
    let e := { e with nextEffect := e.nextEffect + 1 }
    if expected.functionId ≠ c.name then
      (.error (.exception (.replayError ("Unexpected side-effect function '" ++ c.name ++
        "' instead of '" ++ expected.functionId ++ "'"))), e)
    else if k.args.restore expected.args ≠ orNone c.args then
      (.error (.exception (.unexpectedArguments c.name (orNone c.args)
        (k.args.restore expected.args))), e)
    else if k.kwargs.restore expected.kwargs ≠ orNone c.kwargs then
      (.error (.exception (.unexpectedKeywords c.name (orNone c.kwargs)
        (k.kwargs.restore expected.kwargs))), e)
    else
      (.ok (k.result.restore expected.result),
        { e with applied := e.applied ++ expected.effects.map (Effect.restore k) })

/-- The wrappers in a section that replays. -/
def replaying [DecidableEq V] (k : Keeper V F X) :
    Handler (ReplayEntry V F) (Call V) Recorded (Answer V X) where
  ask := nextSideEffect k
  refuse _ := none
  leave f := callFun f.functionId

/-! ## Recorded calls and their replay -/

/-- A journal entry. -/
structure Entry (F : Type) where
  journalId : List Nat
  functionId : String
  fiberId : String
  fiberDepth : Nat
  args : F
  kwargs : F
  sideEffects : List (Option (SideEffect F))
  result : F

/-- What a recorded call gives for what the function returns or raises. -/
def toResult : Answer V X → Result V X
  | .ok v => .value v
  | .error (.exception e) | .error (.failure e) => .fail e

/-- `_recorded_call`, for the first function of a section, with the entry it writes. Where the
function is unknown or its arguments or its result cannot be frozen it writes none. -/
def recordedCall (k : Keeper V F X) (env : Environment W V X)
    (registry : String → Option (Function S V X)) (journalId : List Nat) (fiberId : String)
    (fiberDepth : Nat) (f : Recorded) (args : List V) (kwargs : List (String × V)) (s : S)
    (world : W) : Option (Entry F × Result V X × S × W) := do
  let function ← registry f.functionId
  let frozenArgs ← (k.args.convert (orNone args)).toOption
  let frozenKwargs ← (k.kwargs.convert (orNone kwargs)).toOption
  let (answer, s, r) :=
    if fiberDepth = 0 ∨ f.reentrant then
      let (answer, s, r) := run (recording k env) (function args kwargs) s ⟨world, []⟩
      (callFun f.functionId answer, s, r)
    else (reentrantCall f.functionId, s, ⟨world, []⟩)
  let result := toResult answer
  let frozenResult ← (k.freeze result).toOption
  return (⟨journalId, f.functionId, fiberId, fiberDepth, frozenArgs, frozenKwargs, r.sideEffects,
    frozenResult⟩, result, s, r.world)

/-- `_replayed_call`: an exception becomes a fiber that fails, anything else is raised. -/
def replayedCall : Answer V X → Except (Error V X) (Result V X)
  | .ok v => .ok (.value v)
  | .error (.exception e) => .ok (.fail e)
  | .error (.failure e) => .error e

/-- `Recorder.replay`. -/
def replay [DecidableEq V] (k : Keeper V F X) (registry : String → Option (Function S V X))
    (entry : Entry F) (s : S) :
    Option (Except (Error V X) (Result V X) × S × ReplayEntry V F) := do
  let args := (k.args.restore entry.args).getD []
  let kwargs := (k.kwargs.restore entry.kwargs).getD []
  let function ← registry entry.functionId
  let (answer, s, e) := run (replaying k) (function args kwargs) s ⟨entry.sideEffects, 0, []⟩
  return (replayedCall (callFun entry.functionId answer), s, e)

end
end Feat.Common.Journal
