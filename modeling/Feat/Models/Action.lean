import Feat.Lib.Hash
import Feat.Models.Value

/- Actions (`feat.models.action`: `Action.perform`).

   The arguments are validated against the parameters, as the fields of a Structure are, and the
   effects are called one after the other with what is left. An argument that has no name is the
   one called `value`. The exceptions of nested Structures are renamed on the way: the name of
   the parameter is put before each name they hold. -/
namespace Feat.Models

open Hash

/-- `ParameterError` and the classes derived from it. -/
inductive Kind where
  | parameter
  | missing
  | unknown
  | invalid
  deriving DecidableEq

/-- What performing an action fails with: `other` is an exception of a validator that is no
    `ModelError`, and `failed` one of `fetch_enabled`, of an effect or of the result. -/
inductive Failure where
  | parameters (kind : Kind) (names : List Path)
  | other
  | notAvailable
  | failed

variable {A : Type}

abbrev Arguments (A : Type) : Type := List (String × Value A)

/-- An effect, called with the result of the last one; it may fail. -/
abbrev Effect (A : Type) : Type := Value A → Arguments A → Option (Value A)

structure Action (A : Type) where
  parameters : List (Param (Info A))
  effects : List (Effect A)
  resultInfo : Option (Info A)
  /-- `fetch_enabled`, which may fail. -/
  enabled : Option Bool

/-- The calls of effects that were made, and the outcome. -/
structure Performed (A : Type) where
  calls : List (Value A × Arguments A)
  result : Except Failure (Value A)

namespace Action

/-- The arguments by name: there can be one value only. -/
def given (args : List (Value A)) (kwargs : Dict String (Value A)) :
    Option (Dict String (Value A)) :=
  match args with
  | [] => some kwargs
  | value :: _ =>
    if (args ++ (kwargs.lookup "value").toList).length > 1 then none
    else some (kwargs.insert "value" value)

section
variable (parameters : List (Param (Validator A)))

/-- The values of the parameters: those that are valid, and the names of those that are not. -/
def validateItems : Arguments A → Except Failure (Arguments A × List Path)
  | [] => .ok ([], [])
  | (name, value) :: items => match index parameters name with
    | none => .error .other
    | some param => match param.valueInfo.validate value with
      | .ok validated => (validateItems items).map fun r => ((name, validated) :: r.1, r.2)
      | .error .valueError => (validateItems items).map fun r => (r.1, [name] :: r.2)
      | .error (.missing names) => .error (.parameters .missing (names.map (name :: ·)))
      | .error (.unknown names) => .error (.parameters .unknown (names.map (name :: ·)))
      | .error (.invalid names) =>
        (validateItems items).map fun r => (r.1, names.map (name :: ·) ++ r.2)
      | .error .other => .error .other

def validateArguments (items : Arguments A) : Except Failure (Arguments A) :=
  if missingNames parameters items ≠ [] then
    .error (.parameters .missing ((missingNames parameters items).map ([·])))
  else if unknownNames parameters items ≠ [] then
    .error (.parameters .unknown ((unknownNames parameters items).map ([·])))
  else (validateItems parameters items).bind fun r =>
    if r.2 ≠ [] then .error (.parameters .invalid r.2)
    else .ok (r.1 ++ leftOut Validator.default parameters r.1)

end

/-- `validated.pop(u"value", None)`. -/
def valueOf (validated : Arguments A) : Value A := (validated.lookup "value").getD .none

def others (validated : Arguments A) : Arguments A := validated.filter (·.1 ≠ "value")

/-- The effects one after the other. -/
def runEffects (params : Arguments A) : List (Effect A) → Value A → Performed A
  | [], value => ⟨[], .ok value⟩
  | effect :: effects, value => match effect value params with
    | none => ⟨[(value, params)], .error .failed⟩
    | some result =>
      ⟨(value, params) :: (runEffects params effects result).calls,
        (runEffects params effects result).result⟩

variable (order : HashOrder String) (a : Action A)

/-- The result of the last effect as it is published. -/
def publishResult (result : Value A) : Except Failure (Value A) :=
  match a.resultInfo with
  | some info => (info.validator.publish result).mapError fun _ => .failed
  | none => .ok .none

/-- `d.callback(value)`. -/
def run (validated : Arguments A) : Performed A :=
  match a.enabled with
  | none => ⟨[], .error .failed⟩
  | some false => ⟨[], .error .notAvailable⟩
  | some true =>
    ⟨(runEffects (others validated) a.effects (valueOf validated)).calls,
      (runEffects (others validated) a.effects (valueOf validated)).result.bind a.publishResult⟩

/-- `Action.perform`. -/
def perform (args : List (Value A)) (kwargs : Dict String (Value A)) : Performed A :=
  match given args kwargs with
  | none => ⟨[], .error (.parameters .parameter [["value"]])⟩
  | some kwargs =>
    match validateArguments (a.parameters.map (Param.map Info.validator))
        (Dict.items order kwargs) with
    | .error e => ⟨[], .error e⟩
    | .ok validated => a.run validated

end Action

end Feat.Models
