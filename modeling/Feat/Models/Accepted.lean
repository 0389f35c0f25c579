import Feat.Lib.Fallible
import Feat.Models.Value

/- Accepted values (`feat.models.value`: `Structure` and `Collection`).

   `Info.accept` says what values a definition is for, at every depth: a Structure is for the
   dictionaries with all required fields and no unknown one whose values are accepted, a
   Collection for the lists whose size is within the bounds and whose elements are each accepted
   by an allowed type. A definition does this unless something other than `ValueError` or
   `InvalidParameters` escapes from it: a Structure raises `MissingParameters` or
   `UnknownParameters` where it refuses, and a Collection does not go on to its next type then. -/
namespace Feat.Models

/-! ## The values a definition is for -/

/-- Whether a Collection does not take it for a refusal. -/
def Error.Escapes : Error → Prop
  | .valueError | .invalid _ => False
  | .missing _ | .unknown _ | .other => True

variable {A B C X : Type}

/-- What a definition accepts, and the results. -/
structure Acceptor (A : Type) where
  default : Option (Value A)
  accept : Method → Value A → Option (Value A)

namespace Structure
variable (fields : List (Param (Acceptor A)))

def acceptItem (item : String × Value A) : Option (String × Value A) :=
  (index fields item.1).bind fun param =>
    (param.valueInfo.accept .validate item.2).map (Prod.mk item.1)

/-- The required fields and no others but optional ones. -/
def acceptItems (items : List (String × Value A)) : Option (List (String × Value A)) :=
  if missingNames fields items = [] ∧ unknownNames fields items = [] then
    (items.mapM (acceptItem fields)).map fun validated =>
      validated ++ leftOut Acceptor.default fields validated
  else none

def accept : Value A → Option (Value A)
  | .dict items => (acceptItems fields items).map .dict
  | _ => none

/-- A field that is published: an optional one that has no acceptable value is left out, or has
    its default. -/
def acceptField (value : Value A) (field : Param (Acceptor A)) :
    Option (Option (String × Value A)) :=
  match (getter value field.name).toOption.bind (field.valueInfo.accept .publish) with
  | some v => some (some (field.name, v))
  | none =>
    if field.isRequired then none
    else match field.valueInfo.default with
      | some default =>
        (field.valueInfo.accept .publish default).map fun v => some (field.name, v)
      | none => some none

def acceptPublished (value : Value A) : Option (Value A) :=
  ((effective fields).mapM (acceptField value)).map fun results => .dict (results.filterMap id)

end Structure

/-- A list within the bounds, with the first type that accepts for each element. -/
def Collection.accept (allowed : List (Value A → Option (Value A))) (minSize maxSize : Option Int)
    (value : Value A) : Option (Value A) :=
  (elements value).bind fun values =>
    if Within minSize maxSize values.length then
      (values.mapM fun v => allowed.findSome? (· v)).map .list
    else none

namespace Info

mutual

/-- What values a definition is for. -/
def acceptor : Info A → Acceptor A
  | .scalar s => ⟨s.default, fun method v => match method with
      | .validate => (s.validate v).toOption
      | .publish => (s.publish v).toOption⟩
  | .struct default fields => ⟨default, fun method => match method with
      | .validate => Structure.accept (fieldAcceptors fields)
      | .publish => Structure.acceptPublished (fieldAcceptors fields)⟩
  | .collection default allowed minSize maxSize => ⟨default, fun method =>
      Collection.accept ((acceptors allowed).map (·.accept method)) minSize maxSize⟩

def acceptors : List (Info A) → List (Acceptor A)
  | [] => []
  | d :: ds => acceptor d :: acceptors ds

def fieldAcceptors : List (Param (Info A)) → List (Param (Acceptor A))
  | [] => []
  | p :: ps => fieldAcceptor p :: fieldAcceptors ps

def fieldAcceptor : Param (Info A) → Param (Acceptor A)
  | ⟨name, isRequired, valueInfo⟩ => ⟨name, isRequired, acceptor valueInfo⟩

end

def accept (method : Method) (d : Info A) : Value A → Option (Value A) :=
  d.acceptor.accept method

theorem acceptors_eq (ds : List (Info A)) : acceptors ds = ds.map acceptor := by
  induction ds with
  | nil => rfl
  | cons d ds ih => rw [acceptors, ih, List.map_cons]

theorem fieldAcceptors_eq (ps : List (Param (Info A))) :
    fieldAcceptors ps = ps.map (Param.map acceptor) := by
  induction ps with
  | nil => rfl
  | cons p ps ih =>
    rw [fieldAcceptors, ih, List.map_cons]
    cases p
    simp [fieldAcceptor, Param.map]

@[simp] theorem acceptor_default (d : Info A) : d.acceptor.default = d.default := by
  cases d <;> rw [acceptor] <;> rfl

theorem accept_scalar_validate (s : Scalar A) (v : Value A) :
    accept .validate (.scalar s) v = (s.validate v).toOption := by
  rw [accept, acceptor]

theorem accept_struct_validate (default : Option (Value A)) (fields : List (Param (Info A))) :
    accept .validate (.struct default fields) =
      Structure.accept (fields.map (Param.map acceptor)) := by
  rw [accept, acceptor, fieldAcceptors_eq]

theorem accept_struct_publish (default : Option (Value A)) (fields : List (Param (Info A))) :
    accept .publish (.struct default fields) =
      Structure.acceptPublished (fields.map (Param.map acceptor)) := by
  rw [accept, acceptor, fieldAcceptors_eq]

theorem accept_collection (default : Option (Value A)) (allowed : List (Info A))
    (minSize maxSize : Option Int) (method : Method) :
    accept method (.collection default allowed minSize maxSize) =
      Collection.accept (allowed.map (accept method)) minSize maxSize := by
  simp only [accept, acceptor, acceptors_eq, List.map_map]
  rfl

end Info

/-! ## What a definition does -/

/-- What is done is what the value is for, unless something escapes. -/
inductive Agrees : Except Error B → Option B → Prop
  | accepted (b : B) : Agrees (.ok b) (some b)
  | refused (e : Error) : ¬ e.Escapes → Agrees (.error e) none
  | escaped (e : Error) (o : Option B) : e.Escapes → Agrees (.error e) o

namespace Agrees

theorem some_of_ok {b : B} {o : Option B} (h : Agrees (.ok b) o) : o = some b := by
  cases h; rfl

theorem none_of_error {e : Error} {o : Option B} (h : Agrees (.error e) o) (he : ¬ e.Escapes) :
    o = none := by
  cases h with
  | refused => rfl
  | escaped _ _ h' => exact absurd h' he

theorem map {r : Except Error B} {o : Option B} (h : Agrees r o) (f : B → C) :
    Agrees (r.map f) (o.map f) := by
  cases h with
  | accepted b => exact accepted (f b)
  | refused e he => exact refused e he
  | escaped e o he => exact escaped e _ he

theorem error_none (e : Error) : Agrees (.error e) (none : Option B) := by
  by_cases he : e.Escapes
  · exact escaped e none he
  · exact refused e he

theorem mapM {f : X → Except Error B} {g : X → Option B} {xs : List X}
    (h : ∀ x ∈ xs, Agrees (f x) (g x)) : Agrees (xs.mapM f) (xs.mapM g) := by
  induction xs with
  | nil => exact accepted []
  | cons x xs ih =>
    obtain ⟨hx, hxs⟩ := List.forall_mem_cons.1 h
    have hrest := ih hxs
    rw [List.mapM_cons, List.mapM_cons]
    generalize f x = r at hx ⊢
    generalize g x = o at hx ⊢
    cases hx with
    | refused e he => exact refused e he
    | escaped e o he => exact escaped e _ he
    | accepted b =>
      have hcons := hrest.map (b :: ·)
      rwa [Option.map_eq_bind] at hcons

end Agrees

namespace Structure
variable {fields : List (Param (Info A))}

theorem validateItems_agrees
    (h : ∀ p ∈ fields, ∀ v,
      Agrees (p.valueInfo.validator.validate v) (p.valueInfo.accept .validate v))
    (items : List (String × Value A)) :
    Agrees ((validateItems (fields.map (Param.map Info.validator)) items).bind fun r =>
        if r.2 ≠ [] then .error (.invalid (r.2.map ([·]))) else .ok r.1)
      (items.mapM (acceptItem (fields.map (Param.map Info.acceptor)))) := by
  induction items with
  | nil => exact .accepted []
  | cons item items ih =>
    obtain ⟨name, value⟩ := item
    rw [validateItems, List.mapM_cons, acceptItem, index_map, index_map]
    cases hp : index fields name with
    | none => exact .escaped .other _ trivial
    | some param =>
      have hv := h param (mem_of_index hp) value
      simp only [Option.map_some, Param.map_valueInfo, Option.bind_some]
      change Agrees _ (((param.valueInfo.accept .validate value).map (Prod.mk name)).bind _)
      generalize param.valueInfo.validator.validate value = r at hv ⊢
      generalize param.valueInfo.accept .validate value = o at hv ⊢
      generalize validateItems (fields.map (Param.map Info.validator)) items = rest at ih ⊢
      cases r with
      | ok validated =>
        rw [hv.some_of_ok]
        have hcons := ih.map ((name, validated) :: ·)
        rw [Option.map_eq_bind] at hcons
        convert hcons using 1
        · cases rest with
          | error e => rfl
          | ok rest =>
            simp only [Except.map, Except.bind]
            split <;> rfl
        · rfl
      | error e =>
        cases e with
        | valueError =>
          rw [hv.none_of_error (fun h => h)]
          cases rest with
          | error e => exact .error_none e
          | ok rest => exact .error_none _
        | invalid names =>
          rw [hv.none_of_error (fun h => h)]
          exact .error_none _
        | missing names => exact .escaped _ _ trivial
        | unknown names => exact .escaped _ _ trivial
        | other => exact .escaped _ _ trivial

theorem validate_agrees
    (h : ∀ p ∈ fields, ∀ v,
      Agrees (p.valueInfo.validator.validate v) (p.valueInfo.accept .validate v)) (v : Value A) :
    Agrees (validate (fields.map (Param.map Info.validator)) v)
      (accept (fields.map (Param.map Info.acceptor)) v) := by
  cases v with
  | dict items =>
    have hitems := (validateItems_agrees h items).map fun validated =>
      Value.dict (validated ++ leftOut Info.default fields validated)
    rw [validate, accept, acceptItems]
    simp only [missingNames_map, unknownNames_map, leftOut_map]
    by_cases hmissing : missingNames fields items = []
    · by_cases hunknown : unknownNames fields items = []
      · rw [if_neg (not_not.2 hmissing), if_neg (not_not.2 hunknown), if_pos ⟨hmissing, hunknown⟩]
        have hdefault : Validator.default ∘ Info.validator (A := A) = Info.default :=
          funext Info.validator_default
        have hdefault' : Acceptor.default ∘ Info.acceptor (A := A) = Info.default :=
          funext Info.acceptor_default
        rw [hdefault, hdefault', Option.map_map]
        convert hitems using 1
        · cases validateItems (fields.map (Param.map Info.validator)) items with
          | error e => rfl
          | ok rest =>
            simp only [Except.map, Except.bind]
            split <;> rfl
        · rfl
      · rw [if_neg (not_not.2 hmissing), if_pos hunknown]
        exact .escaped _ _ trivial
    · rw [if_pos hmissing]
      exact .escaped _ _ trivial
  | _ => exact .error_none _

theorem getter_error {v : Value A} {name : String} {e : Error} (h : getter v name = .error e) :
    e = .valueError := by
  cases v with
  | dict items | object items =>
    rw [getter] at h
    cases hl : items.lookup name <;> rw [hl] at h <;> cases h
    rfl
  | _ => cases h; rfl

theorem publish_error {fields : List (Param (Validator A))} {v : Value A} {e : Error}
    (h : publish fields v = .error e) : ∃ field ∈ fields, publishField v field = .error e := by
  obtain ⟨field, hfield, he⟩ := Fallible.exists_of_mapM_error (Fallible.error_of_map h)
  exact ⟨field, mem_of_mem_effective hfield, he⟩

theorem publishField_error {v : Value A} {field : Param (Validator A)} {e : Error}
    (h : publishField v field = .error e) :
    e = .valueError ∨ ∃ w, field.valueInfo.publish w = .error e := by
  have hvalue : ∀ e', (getter v field.name).bind field.valueInfo.publish = .error e' →
      e' = .valueError ∨ ∃ w, field.valueInfo.publish w = .error e' := by
    intro e' he
    cases hg : getter v field.name with
    | error e'' => rw [hg] at he; cases he; exact .inl (getter_error hg)
    | ok w => rw [hg] at he; exact .inr ⟨w, he⟩
  rw [publishField] at h
  generalize (getter v field.name).bind field.valueInfo.publish = r at h hvalue
  cases r with
  | ok w => cases h
  | error e' =>
    cases e' with
    | valueError =>
      dsimp only at h
      split at h
      · cases h; exact .inl rfl
      · cases hd : field.valueInfo.default with
        | none => rw [hd] at h; cases h
        | some default =>
          rw [hd] at h
          cases hp : field.valueInfo.publish default with
          | ok w => simp [hp, Except.map] at h
          | error e' => exact .inr ⟨default, by simpa [hp, Except.map] using h⟩
    | _ => cases h; exact hvalue _ rfl

/-- Publishing a field does what the field is for. -/
theorem publishField_agrees {p : Param (Info A)} {v : Value A}
    (h : ∀ w, Agrees (p.valueInfo.validator.publish w) (p.valueInfo.accept .publish w))
    (hplain : ∀ w e, p.valueInfo.validator.publish w = .error e → e = .valueError ∨ e = .other) :
    Agrees (publishField v (p.map Info.validator)) (acceptField v (p.map Info.acceptor)) := by
  have hvalue : Agrees ((getter v p.name).bind p.valueInfo.validator.publish)
      ((getter v p.name).toOption.bind (p.valueInfo.accept .publish)) := by
    cases hg : getter v p.name with
    | error e => exact .error_none e
    | ok w => exact h w
  have herror : ∀ e, (getter v p.name).bind p.valueInfo.validator.publish = .error e →
      e = .valueError ∨ e = .other := by
    intro e he
    cases hg : getter v p.name with
    | error e' => rw [hg] at he; cases he; exact .inl (getter_error hg)
    | ok w => rw [hg] at he; exact hplain w e he
  rw [publishField, acceptField]
  simp only [Param.map_name, Param.map_valueInfo, Param.map_isRequired, Info.validator_default,
    Info.acceptor_default]
  change Agrees _ (match (getter v p.name).toOption.bind (p.valueInfo.accept .publish) with
    | some v => _
    | none => _)
  generalize (getter v p.name).bind p.valueInfo.validator.publish = r at hvalue herror ⊢
  generalize (getter v p.name).toOption.bind (p.valueInfo.accept .publish) = o at hvalue ⊢
  cases r with
  | ok w => rw [hvalue.some_of_ok]; exact .accepted _
  | error e =>
    rcases herror e rfl with rfl | rfl
    · rw [hvalue.none_of_error (fun h => h)]
      dsimp only
      split
      · exact .error_none _
      · cases p.valueInfo.default with
        | none => exact .accepted none
        | some default => exact (h default).map fun v => some (p.name, v)
    · exact .escaped _ _ trivial

end Structure

/-! ## Publishing raises nothing but `ValueError`, unless a scalar does -/

theorem Collection.convertElement_error {alternatives : List (Conversion A)} {v : Value A}
    {e : Error} (h : convertElement alternatives v = .error e) :
    e = .valueError ∨ e.Escapes ∧ ∃ convert ∈ alternatives, convert v = .error e := by
  induction alternatives with
  | nil => cases h; exact .inl rfl
  | cons convert alternatives ih =>
    rw [convertElement] at h
    cases hv : convert v with
    | ok w => rw [hv] at h; cases h
    | error e' =>
      rw [hv] at h
      cases e' with
      | valueError | invalid names =>
        exact (ih h).imp_right fun ⟨hesc, c, hc, he⟩ => ⟨hesc, c, List.mem_cons_of_mem _ hc, he⟩
      | _ =>
        cases h
        exact .inr ⟨trivial, convert, List.mem_cons_self, hv⟩

theorem Collection.convert_error {allowed : List (Conversion A)} {minSize maxSize : Option Int}
    {v : Value A} {e : Error} (h : convert allowed minSize maxSize v = .error e) :
    e = .valueError ∨ e.Escapes ∧ ∃ values, elements v = some values ∧
      ∃ x ∈ values, ∃ convert ∈ allowed, convert x = .error e := by
  rw [convert] at h
  cases hv : elements v with
  | none => rw [hv] at h; cases h; exact .inl rfl
  | some values =>
    rw [hv] at h
    dsimp only at h
    split at h
    · obtain ⟨x, hx, he⟩ := Fallible.exists_of_mapM_error (Fallible.error_of_map h)
      exact (convertElement_error he).imp_right fun ⟨hesc, hc⟩ => ⟨hesc, values, rfl, x, hx, hc⟩
    · cases h; exact .inl rfl

theorem Refusal.error_of_mapError {r : Except Refusal B} {e : Error}
    (h : r.mapError Refusal.error = .error e) : e = .valueError ∨ e = .other := by
  cases r with
  | ok b => cases h
  | error refusal =>
    cases refusal <;> cases h
    · exact .inl rfl
    · exact .inr rfl

theorem Info.publish_error (d : Info A) :
    ∀ {v e}, d.validator.publish v = .error e → e = .valueError ∨ e = .other := by
  induction d using Info.forall_of with
  | scalar s =>
    intro v e h
    rw [validator] at h
    exact Refusal.error_of_mapError h
  | struct default fields ih =>
    intro v e h
    rw [validator_struct] at h
    obtain ⟨field, hfield, he⟩ := Structure.publish_error h
    rcases Structure.publishField_error he with he | ⟨w, he⟩
    · exact .inl he
    · obtain ⟨p, hp, rfl⟩ := List.mem_map.1 hfield
      exact ih p hp he
  | collection default allowed minSize maxSize ih =>
    intro v e h
    rw [← Validator.call_publish, validator_collection] at h
    rcases Collection.convert_error h with h | ⟨_, _, _, x, _, convert, hc, he⟩
    · exact .inl h
    · obtain ⟨d, hd, rfl⟩ := List.mem_map.1 hc
      exact ih d hd he

theorem Structure.publish_agrees {fields : List (Param (Info A))}
    (h : ∀ p ∈ fields, ∀ v,
      Agrees (p.valueInfo.validator.publish v) (p.valueInfo.accept .publish v)) (v : Value A) :
    Agrees (publish (fields.map (Param.map Info.validator)) v)
      (acceptPublished (fields.map (Param.map Info.acceptor)) v) := by
  rw [publish, acceptPublished, effective_map, effective_map]
  refine Agrees.map ?_ _
  rw [List.mapM_map, List.mapM_map]
  refine Agrees.mapM fun p hp => ?_
  exact publishField_agrees (h p (mem_of_mem_effective hp)) fun w e he => p.valueInfo.publish_error he

namespace Collection

/-- The alternatives for one element do what the first type that accepts it does. -/
theorem convertElement_agrees {allowed : List (Info A)} {method : Method} {v : Value A}
    (h : ∀ d ∈ allowed, Agrees (d.validator.call method v) (d.accept method v)) :
    Agrees (convertElement (allowed.map (·.validator.call method)) v)
      (allowed.findSome? (·.accept method v)) := by
  induction allowed with
  | nil => exact .error_none _
  | cons d ds ih =>
    obtain ⟨hd, hds⟩ := List.forall_mem_cons.1 h
    rw [List.map_cons, convertElement, List.findSome?_cons]
    generalize d.validator.call method v = r at hd ⊢
    generalize d.accept method v = o at hd ⊢
    cases hd with
    | accepted w => exact .accepted w
    | refused e he =>
      cases e with
      | valueError | invalid names => exact ih hds
      | _ => exact absurd trivial he
    | escaped e o he =>
      cases e with
      | valueError | invalid names => exact he.elim
      | _ => exact .escaped _ _ trivial

theorem convert_agrees {allowed : List (Info A)} {method : Method}
    (h : ∀ d ∈ allowed, ∀ v, Agrees (d.validator.call method v) (d.accept method v))
    (minSize maxSize : Option Int) (v : Value A) :
    Agrees (convert (allowed.map (·.validator.call method)) minSize maxSize v)
      (accept (allowed.map (Info.accept method)) minSize maxSize v) := by
  rw [convert, accept]
  cases hv : elements v with
  | none => exact .error_none _
  | some values =>
    simp only [Option.bind_some]
    split
    · refine Agrees.map (Agrees.mapM fun x _ => ?_) _
      rw [List.findSome?_map]
      exact convertElement_agrees fun d hd => h d hd x
    · exact .error_none _

end Collection

/-- A definition does what it is for, unless something escapes from it. -/
theorem Info.agrees (d : Info A) (method : Method) :
    ∀ v, Agrees (d.validator.call method v) (d.accept method v) := by
  induction d using Info.forall_of generalizing method with
  | scalar s =>
    intro v
    rw [accept, validator, acceptor]
    have hscalar : ∀ r : Except Refusal (Value A),
        Agrees (r.mapError Refusal.error) r.toOption := by
      intro r
      cases r with
      | ok w => exact .accepted w
      | error e => exact .error_none _
    cases method with
    | validate => exact hscalar (s.validate v)
    | publish => exact hscalar (s.publish v)
  | struct default fields ih =>
    intro v
    cases method with
    | validate =>
      rw [validator_struct, accept_struct_validate]
      exact Structure.validate_agrees (fun p hp => ih p hp .validate) v
    | publish =>
      rw [validator_struct, accept_struct_publish]
      exact Structure.publish_agrees (fun p hp => ih p hp .publish) v
  | collection default allowed minSize maxSize ih =>
    intro v
    rw [validator_collection, accept_collection]
    exact Collection.convert_agrees (fun d hd => ih d hd method) minSize maxSize v

/-! ## Collections -/

namespace Collection
variable (method : Method) (default : Option (Value A)) (allowed : List (Info A))
  (minSize maxSize : Option Int) (value : Value A)

/-- A list within the bounds of elements that are each accepted by an allowed type. -/
def Acceptable : Prop :=
  ∃ values, elements value = some values ∧ Within minSize maxSize values.length ∧
    ∀ v ∈ values, ∃ d ∈ allowed, (d.accept method v).isSome

/-- What `validate` and `publish` are for. -/
structure Converts : Prop where
  accepts : (∃ w, (Info.collection default allowed minSize maxSize).validator.call method value =
    .ok w) ↔ Acceptable method allowed minSize maxSize value
  first : ∀ w, (Info.collection default allowed minSize maxSize).validator.call method value =
      .ok w →
    ∃ values results, elements value = some values ∧ w = .list results ∧
      List.Forall₂ (fun v r => allowed.findSome? (·.accept method v) = some r) values results
  anyOrder : ∀ allowed', allowed'.Perm allowed →
    ((∃ w, (Info.collection default allowed' minSize maxSize).validator.call method value =
      .ok w) ↔
    ∃ w, (Info.collection default allowed minSize maxSize).validator.call method value = .ok w)

/-- No allowed type raises, for an element, what is not taken for a refusal. -/
def Caught : Prop :=
  ∀ values, elements value = some values → ∀ v ∈ values, ∀ d ∈ allowed, ∀ e,
    d.validator.call method v = .error e → ¬ e.Escapes

variable {method default allowed minSize maxSize value}

theorem acceptable_iff : Acceptable method allowed minSize maxSize value ↔
    ((Info.collection default allowed minSize maxSize).accept method value).isSome := by
  rw [Info.accept_collection, accept, Acceptable]
  cases elements value with
  | none => simp
  | some values =>
    simp only [Option.some.injEq, exists_eq_left', Option.bind_some]
    split
    · next hsize =>
      rw [Option.isSome_map, Fallible.isSome_mapM_iff]
      simp [hsize, List.findSome?_isSome_iff]
    · next hsize => simp [hsize]

theorem forall₂_of_accept {w : Value A}
    (h : (Info.collection default allowed minSize maxSize).accept method value = some w) :
    ∃ values results, elements value = some values ∧ w = .list results ∧
      List.Forall₂ (fun v r => allowed.findSome? (·.accept method v) = some r) values results := by
  rw [Info.accept_collection, accept] at h
  obtain ⟨values, hv, h⟩ := Option.bind_eq_some_iff.1 h
  split at h
  · obtain ⟨results, hr, rfl⟩ := Option.map_eq_some_iff.1 h
    refine ⟨values, results, hv, rfl, ?_⟩
    simpa [List.findSome?_map, Function.comp_def] using Fallible.forall₂_of_mapM hr
  · cases h

/-- Where nothing escapes, what is acceptable is accepted, and nothing else is. -/
theorem accepts_iff (h : Acceptable method allowed minSize maxSize value →
      Caught method allowed value) :
    (∃ w, (Info.collection default allowed minSize maxSize).validator.call method value = .ok w) ↔
      Acceptable method allowed minSize maxSize value := by
  have hagrees := (Info.collection default allowed minSize maxSize).agrees method value
  constructor
  · rintro ⟨w, hw⟩
    rw [hw] at hagrees
    rw [acceptable_iff, hagrees.some_of_ok]
    rfl
  · intro hacceptable
    cases hr : (Info.collection default allowed minSize maxSize).validator.call method value with
    | ok w => exact ⟨w, rfl⟩
    | error e =>
      rw [hr] at hagrees
      have hescapes : e.Escapes := by
        by_contra he
        rw [acceptable_iff, hagrees.none_of_error he] at hacceptable
        cases hacceptable
      rw [Info.validator_collection] at hr
      rcases convert_error hr with rfl | ⟨_, values, hvalues, v, hv, convert, hc, he⟩
      · exact hescapes.elim
      · obtain ⟨d, hd, rfl⟩ := List.mem_map.1 hc
        exact absurd hescapes (h hacceptable values hvalues v hv d hd e he)

/-- A type that comes first is the first to be tried. -/
theorem convert_eq_error_of_escapes {d : Info A} {ds : List (Info A)} {values : List (Value A)}
    {v : Value A} {e : Error} (hvalues : elements value = some values) (hv : v ∈ values)
    (h : d.validator.call method v = .error e) (he : e.Escapes) (w : Value A) :
    (Info.collection default (d :: ds) minSize maxSize).validator.call method value ≠ .ok w := by
  intro hw
  rw [Info.validator_collection, convert, hvalues] at hw
  dsimp only at hw
  split at hw
  · cases hm : values.mapM (convertElement ((d :: ds).map (·.validator.call method))) with
    | error e => rw [hm] at hw; cases hw
    | ok results =>
      obtain ⟨r, hr⟩ := Fallible.mapM_isOk hm v hv
      rw [List.map_cons, convertElement, h] at hr
      cases e with
      | valueError | invalid names => exact he
      | _ => cases hr
  · cases hw

/-- A collection accepts exactly the lists of acceptable elements if and only if no allowed type
    lets an exception escape for an element of such a list. -/
theorem converts_iff : Converts method default allowed minSize maxSize value ↔
    (Acceptable method allowed minSize maxSize value → Caught method allowed value) := by
  constructor
  · intro h hacceptable values hvalues v hv d hd e he hescapes
    obtain ⟨s, t, rfl⟩ := List.append_of_mem hd
    obtain ⟨w, hw⟩ := (h.anyOrder (d :: (s ++ t)) List.perm_middle.symm).2 (h.accepts.2 hacceptable)
    exact convert_eq_error_of_escapes hvalues hv he hescapes w hw
  · intro h
    refine ⟨accepts_iff h, fun w hw => ?_, fun allowed' hperm => ?_⟩
    · have hagrees := (Info.collection default allowed minSize maxSize).agrees method value
      rw [hw] at hagrees
      exact forall₂_of_accept hagrees.some_of_ok
    · have hacceptable : Acceptable method allowed' minSize maxSize value ↔
          Acceptable method allowed minSize maxSize value := by
        simp only [Acceptable, hperm.mem_iff]
      rw [accepts_iff h, accepts_iff, hacceptable]
      intro ha values hvalues v hv d hd
      exact h (hacceptable.1 ha) values hvalues v hv d (hperm.mem_iff.1 hd)

/-- An empty dictionary is refused by the Structure with `MissingParameters`, before the type that
    would accept it is tried. -/
theorem refused_before_accepted :
    ¬ Converts (A := Unit) .validate none
        [.struct none [⟨"field1", true, .scalar ⟨none, .ok, .ok⟩⟩], .scalar ⟨none, .ok, .ok⟩]
        none none (.list [.dict []]) := by
  intro h
  have hacceptable : Acceptable (A := Unit) .validate
      [.struct none [⟨"field1", true, .scalar ⟨none, .ok, .ok⟩⟩], .scalar ⟨none, .ok, .ok⟩]
      none none (.list [.dict []]) :=
    ⟨[.dict []], rfl, ⟨fun _ h => (nomatch h), fun _ h => (nomatch h)⟩, fun v hv =>
      ⟨.scalar ⟨none, .ok, .ok⟩, by simp, by rw [Info.accept, Info.acceptor]; rfl⟩⟩
  obtain ⟨w, hw⟩ := h.accepts.2 hacceptable
  have herror : (Info.collection none
      [.struct none [⟨"field1", true, .scalar ⟨none, .ok, .ok⟩⟩], .scalar ⟨none, .ok, .ok⟩]
      none none).validator.call .validate (.list [.dict []] : Value Unit) =
        .error (.missing [["field1"]]) := by
    rfl
  rw [herror] at hw
  cases hw

end Collection

end Feat.Models
