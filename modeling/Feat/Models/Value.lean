import Mathlib.Data.List.Basic

/- Value definitions (`feat.models.value`: `Structure`, `Collection` and what is between them and
   a scalar).

   A definition validates and publishes values, and may have a default. Those of scalars and
   enumerations are of any kind (`Scalar`); what they raise is a `ValueError`, or something
   else where a conversion fails in another way, as with `OverflowError`. A Structure raises
   exceptions of its own when fields are missing, unknown or invalid: these are no
   `ValueError`. Only objects have attributes, and strings are the keys of dictionaries. -/
namespace Feat.Models

/-! ## Values -/

/-- A value of Python: `atom` is neither a string nor an iterable, and has no attributes. -/
inductive Value (A : Type) where
  | none
  | atom (a : A)
  | string (s : String)
  | list (items : List (Value A))
  | dict (items : List (String × Value A))
  | object (attributes : List (String × Value A))

/-- The names of fields from the outermost one on: a dotted path. -/
abbrev Path : Type := List String

/-- What a definition raises. -/
inductive Error where
  | valueError
  | missing (names : List Path)
  | unknown (names : List Path)
  | invalid (names : List Path)
  | other
  deriving DecidableEq

variable {A X Y : Type}

abbrev Conversion (A : Type) : Type := Value A → Except Error (Value A)

/-- `IValidator`, with the default of the value. -/
structure Validator (A : Type) where
  default : Option (Value A)
  validate : Conversion A
  publish : Conversion A

/-- `method_name`. -/
inductive Method where
  | validate
  | publish

def Validator.call (v : Validator A) : Method → Conversion A
  | .validate => v.validate
  | .publish => v.publish

@[simp] theorem Validator.call_validate (v : Validator A) : v.call .validate = v.validate := rfl

@[simp] theorem Validator.call_publish (v : Validator A) : v.call .publish = v.publish := rfl

/-- What a scalar raises. -/
inductive Refusal where
  | valueError
  | other
  deriving DecidableEq

def Refusal.error : Refusal → Error
  | .valueError => .valueError
  | .other => .other

/-- A scalar or an enumeration. -/
structure Scalar (A : Type) where
  default : Option (Value A)
  validate : Value A → Except Refusal (Value A)
  publish : Value A → Except Refusal (Value A)

/-- `Param`: a field, or a parameter of an action. -/
structure Param (X : Type) where
  name : String
  isRequired : Bool
  valueInfo : X

/-- A parameter with what becomes of its definition. -/
def Param.map (f : X → Y) (p : Param X) : Param Y :=
  ⟨p.name, p.isRequired, f p.valueInfo⟩

/-- The definition of a value. -/
inductive Info (A : Type) where
  | scalar (s : Scalar A)
  | struct (default : Option (Value A)) (fields : List (Param (Info A)))
  | collection (default : Option (Value A)) (allowed : List (Info A)) (minSize maxSize : Option Int)

/-! ## Structures -/

/-- `fields`, and `parameters` of an action: of those of one name only the last counts. -/
def effective : List (Param X) → List (Param X)
  | [] => []
  | p :: ps => if p.name ∈ ps.map Param.name then effective ps else p :: effective ps

def names (ps : List (Param X)) : List String := (effective ps).map Param.name

def requiredNames (ps : List (Param X)) : List String :=
  ((effective ps).filter (·.isRequired)).map Param.name

/-- `param_index[name]`. -/
def index (ps : List (Param X)) (name : String) : Option (Param X) :=
  (effective ps).find? (·.name = name)

/-- `required - params`. -/
def missingNames (ps : List (Param X)) (items : List (String × Y)) : List String :=
  (requiredNames ps).filter (· ∉ items.map Prod.fst)

/-- `params - expected`. -/
def unknownNames (ps : List (Param X)) (items : List (String × Y)) : List String :=
  (items.map Prod.fst).filter (· ∉ names ps)

/-- The optional fields that were left out and have a default. -/
def leftOut (default : X → Option (Value A)) (ps : List (Param X))
    (validated : List (String × Value A)) : List (String × Value A) :=
  (effective ps).filterMap fun p =>
    if p.isRequired ∨ p.name ∈ validated.map Prod.fst then none
    else (default p.valueInfo).map (Prod.mk p.name)

/-! What becomes of the definitions does not matter for the names. -/

@[simp] theorem Param.map_name (f : X → Y) (p : Param X) : (p.map f).name = p.name := rfl

@[simp] theorem Param.map_isRequired (f : X → Y) (p : Param X) :
    (p.map f).isRequired = p.isRequired := rfl

@[simp] theorem Param.map_valueInfo (f : X → Y) (p : Param X) :
    (p.map f).valueInfo = f p.valueInfo := rfl

section Maps
variable (f : X → Y) (ps : List (Param X))

theorem effective_map : effective (ps.map (Param.map f)) = (effective ps).map (Param.map f) := by
  induction ps with
  | nil => rfl
  | cons p ps ih =>
    have hnames : (ps.map (Param.map f)).map Param.name = ps.map Param.name := by simp
    rw [List.map_cons, effective, effective, hnames, ih, Param.map_name]
    split <;> simp

@[simp] theorem names_map : names (ps.map (Param.map f)) = names ps := by
  simp [names, effective_map]

@[simp] theorem requiredNames_map : requiredNames (ps.map (Param.map f)) = requiredNames ps := by
  simp [requiredNames, effective_map, List.filter_map, Function.comp_def]

@[simp] theorem missingNames_map (items : List (String × A)) :
    missingNames (ps.map (Param.map f)) items = missingNames ps items := by
  simp [missingNames]

@[simp] theorem unknownNames_map (items : List (String × A)) :
    unknownNames (ps.map (Param.map f)) items = unknownNames ps items := by
  simp [unknownNames]

theorem index_map (name : String) :
    index (ps.map (Param.map f)) name = (index ps name).map (Param.map f) := by
  rw [index, effective_map, List.find?_map]
  rfl

theorem leftOut_map (default : Y → Option (Value A)) (validated : List (String × Value A)) :
    leftOut default (ps.map (Param.map f)) validated = leftOut (default ∘ f) ps validated := by
  rw [leftOut, effective_map, List.filterMap_map]
  rfl

end Maps

theorem mem_of_mem_effective {p : Param X} : ∀ {ps : List (Param X)}, p ∈ effective ps → p ∈ ps
  | [], h => nomatch h
  | q :: ps, h => by
    rw [effective] at h
    split at h
    · exact List.mem_cons_of_mem q (mem_of_mem_effective h)
    · exact (List.mem_cons.1 h).elim (· ▸ List.mem_cons_self)
        fun h => List.mem_cons_of_mem q (mem_of_mem_effective h)

theorem mem_of_index {ps : List (Param X)} {name : String} {p : Param X}
    (h : index ps name = some p) : p ∈ ps :=
  mem_of_mem_effective (List.mem_of_find?_eq_some h)

namespace Structure
variable (fields : List (Param (Validator A)))

/-- The values of the fields: those that are valid, and the names of those that are not. -/
def validateItems : List (String × Value A) →
    Except Error (List (String × Value A) × List String)
  | [] => .ok ([], [])
  | (name, value) :: items => match index fields name with
    | none => .error .other
    | some param => match param.valueInfo.validate value with
      | .ok validated => (validateItems items).map fun r => ((name, validated) :: r.1, r.2)
      | .error .valueError => (validateItems items).map fun r => (r.1, name :: r.2)
      | .error e => .error e

/-- `Structure.validate`. -/
def validate : Conversion A
  | .dict items =>
    if missingNames fields items ≠ [] then
      .error (.missing ((missingNames fields items).map ([·])))
    else if unknownNames fields items ≠ [] then
      .error (.unknown ((unknownNames fields items).map ([·])))
    else (validateItems fields items).bind fun r =>
      if r.2 ≠ [] then .error (.invalid (r.2.map ([·])))
      else .ok (.dict (r.1 ++ leftOut Validator.default fields r.1))
  | _ => .error .valueError

/-- `getter`. -/
def getter (value : Value A) (name : String) : Except Error (Value A) :=
  match value with
  | .dict items | .object items => (items.lookup name).elim (.error .valueError) .ok
  | _ => .error .valueError

/-- One field that is published: an optional one may have no value. -/
def publishField (value : Value A) (field : Param (Validator A)) :
    Except Error (Option (String × Value A)) :=
  match (getter value field.name).bind field.valueInfo.publish with
  | .ok v => .ok (some (field.name, v))
  | .error .valueError =>
    if field.isRequired then .error .valueError
    else match field.valueInfo.default with
      | some default => (field.valueInfo.publish default).map fun v => some (field.name, v)
      | none => .ok none
  | .error e => .error e

/-- `Structure.publish`. -/
def publish : Conversion A := fun value =>
  ((effective fields).mapM (publishField value)).map fun results => .dict (results.filterMap id)

end Structure

/-! ## Collections -/

namespace Collection

/-- `list(value)`, unless it raises or the value is a string. -/
def elements : Value A → Option (List (Value A))
  | .list items => some items
  | .dict items => some (items.map fun item => .string item.1)
  | _ => none

/-- Whether the number of elements is within the bounds. -/
def Within (minSize maxSize : Option Int) (size : Nat) : Prop :=
  (∀ m ∈ minSize, m ≤ size) ∧ ∀ m ∈ maxSize, (size : Int) ≤ m

instance (minSize maxSize : Option Int) (size : Nat) : Decidable (Within minSize maxSize size) :=
  inferInstanceAs (Decidable ((∀ m ∈ minSize, m ≤ size) ∧ ∀ m ∈ maxSize, (size : Int) ≤ m))

/-- The alternatives for one element. -/
def convertElement : List (Conversion A) → Conversion A
  | [], _ => .error .valueError
  | convert :: alternatives, v => match convert v with
    | .ok w => .ok w
    | .error .valueError | .error (.invalid _) => convertElement alternatives v
    | .error e => .error e

/-- `_convert`. -/
def convert (allowed : List (Conversion A)) (minSize maxSize : Option Int) : Conversion A :=
  fun value => match elements value with
    | none => .error .valueError
    | some values =>
      if Within minSize maxSize values.length then
        (values.mapM (convertElement allowed)).map .list
      else .error .valueError

end Collection

/-! ## Definitions -/

namespace Info

def default : Info A → Option (Value A)
  | .scalar s => s.default
  | .struct default _ => default
  | .collection default _ _ _ => default

mutual

/-- What a definition does. -/
def validator : Info A → Validator A
  | .scalar s => ⟨s.default, fun v => (s.validate v).mapError Refusal.error,
      fun v => (s.publish v).mapError Refusal.error⟩
  | .struct default fields =>
    ⟨default, Structure.validate (fieldValidators fields), Structure.publish (fieldValidators fields)⟩
  | .collection default allowed minSize maxSize =>
    ⟨default, Collection.convert ((validators allowed).map (·.call .validate)) minSize maxSize,
      Collection.convert ((validators allowed).map (·.call .publish)) minSize maxSize⟩

def validators : List (Info A) → List (Validator A)
  | [] => []
  | d :: ds => validator d :: validators ds

def fieldValidators : List (Param (Info A)) → List (Param (Validator A))
  | [] => []
  | p :: ps => fieldValidator p :: fieldValidators ps

def fieldValidator : Param (Info A) → Param (Validator A)
  | ⟨name, isRequired, valueInfo⟩ => ⟨name, isRequired, validator valueInfo⟩

end

theorem validators_eq (ds : List (Info A)) : validators ds = ds.map validator := by
  induction ds with
  | nil => rfl
  | cons d ds ih => rw [validators, ih, List.map_cons]

theorem fieldValidators_eq (ps : List (Param (Info A))) :
    fieldValidators ps = ps.map (Param.map validator) := by
  induction ps with
  | nil => rfl
  | cons p ps ih =>
    rw [fieldValidators, ih, List.map_cons]
    cases p
    simp [fieldValidator, Param.map]

theorem validator_struct (default : Option (Value A)) (fields : List (Param (Info A))) :
    validator (.struct default fields) =
      ⟨default, Structure.validate (fields.map (Param.map validator)),
        Structure.publish (fields.map (Param.map validator))⟩ := by
  rw [validator, fieldValidators_eq]

theorem validator_collection (default : Option (Value A)) (allowed : List (Info A))
    (minSize maxSize : Option Int) (method : Method) :
    (validator (.collection default allowed minSize maxSize)).call method =
      Collection.convert (allowed.map (·.validator.call method)) minSize maxSize := by
  rw [validator, validators_eq]
  cases method <;> simp [Validator.call, Function.comp_def]

@[simp] theorem validator_default (d : Info A) : d.validator.default = d.default := by
  cases d <;> rw [validator] <;> rfl

/-- Induction over a definition: over the fields of Structures and over the allowed types. -/
theorem forall_of {motive : Info A → Prop} (scalar : ∀ s, motive (.scalar s))
    (struct : ∀ default fields, (∀ p ∈ fields, motive p.valueInfo) →
      motive (.struct default fields))
    (collection : ∀ default allowed minSize maxSize, (∀ d ∈ allowed, motive d) →
      motive (.collection default allowed minSize maxSize)) : ∀ d, motive d :=
  @Info.rec A motive (fun ps => ∀ p ∈ ps, motive p.valueInfo) (fun ds => ∀ d ∈ ds, motive d)
    (fun p => motive p.valueInfo) scalar struct collection
    (fun _ h => (nomatch h)) (fun _ _ hp hps => List.forall_mem_cons.2 ⟨hp, hps⟩)
    (fun _ h => (nomatch h)) (fun _ _ hd hds => List.forall_mem_cons.2 ⟨hd, hds⟩)
    (fun _ _ _ h => h)

end Info

end Feat.Models
