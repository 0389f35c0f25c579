import Feat.Models.Accepted
import Feat.Models.Action

/- The report of `perform` (`feat.models.action`).

   `Info.faults` says what is wrong with a value, with the names from the outermost field on: the
   required fields that are missing, those that are unknown and those whose value is refused, at
   every depth. A Collection is refused as a whole. An action is to run its effects when nothing
   is wrong with the arguments, and to name all faults of a kind otherwise. What the code names
   is complete only down to the fields of a Structure that is an argument: `Structure.validate`
   lets the exceptions of a Structure that is a field pass with the names they have, and
   `perform` puts the name of the argument before these. -/
namespace Feat.Models

open Hash

variable {A : Type}

/-- What is wrong, and where. -/
abbrev Fault : Type := Kind × Path

def Fault.within (name : String) (f : Fault) : Fault := (f.1, name :: f.2)

namespace Structure
variable (fields : List (Param (Value A → List Fault)))

def itemFaults (item : String × Value A) : List Fault :=
  (index fields item.1).elim [] fun param => (param.valueInfo item.2).map (Fault.within item.1)

/-- What is wrong with the items of a dictionary, here and further down. -/
def faults (items : List (String × Value A)) : List Fault :=
  (missingNames fields items).map (fun name => (.missing, [name])) ++
    (unknownNames fields items).map (fun name => (.unknown, [name])) ++
    items.flatMap (itemFaults fields)

end Structure

namespace Info

mutual

/-- What is wrong with a value. -/
def faults : Info A → Value A → List Fault
  | .scalar s, v => if (s.validate v).toOption.isSome then [] else [(.invalid, [])]
  | .struct _ fields, .dict items => Structure.faults (fieldFaults fields) items
  | .struct _ _, _ => [(.invalid, [])]
  | .collection default allowed minSize maxSize, v =>
    if ((Info.collection default allowed minSize maxSize).accept .validate v).isSome then []
    else [(.invalid, [])]

def fieldFaults : List (Param (Info A)) → List (Param (Value A → List Fault))
  | [] => []
  | ⟨name, isRequired, valueInfo⟩ :: ps =>
    ⟨name, isRequired, fun v => faults valueInfo v⟩ :: fieldFaults ps

end

theorem fieldFaults_eq (ps : List (Param (Info A))) :
    fieldFaults ps = ps.map (Param.map faults) := by
  induction ps with
  | nil => rfl
  | cons p ps ih => rw [fieldFaults, ih, List.map_cons]; rfl

theorem faults_struct (default : Option (Value A)) (fields : List (Param (Info A)))
    (items : List (String × Value A)) :
    faults (.struct default fields) (.dict items) =
      Structure.faults (fields.map (Param.map faults)) items := by
  rw [faults, fieldFaults_eq]

theorem faults_of_not_dict {default : Option (Value A)} {fields : List (Param (Info A))}
    {v : Value A} (h : ∀ items, v ≠ .dict items) :
    faults (.struct default fields) v = [(.invalid, [])] := by
  cases v with
  | dict items => exact absurd rfl (h items)
  | _ => rfl

end Info

/-! ## What there is and what is accepted -/

namespace Structure
variable {fields : List (Param (Info A))} {items : List (String × Value A)}

theorem mem_faults {f : Fault} : f ∈ faults (fields.map (Param.map Info.faults)) items ↔
    (∃ n ∈ missingNames fields items, f = (.missing, [n])) ∨
    (∃ n ∈ unknownNames fields items, f = (.unknown, [n])) ∨
    ∃ item ∈ items, ∃ p, index fields item.1 = some p ∧
      ∃ g ∈ p.valueInfo.faults item.2, Fault.within item.1 g = f := by
  simp only [faults, missingNames_map, unknownNames_map, List.mem_append, List.mem_map,
    List.mem_flatMap, or_assoc, @eq_comm _ f]
  refine or_congr_right (or_congr_right (exists_congr fun item => and_congr_right fun _ => ?_))
  rw [itemFaults, index_map]
  cases index fields item.1 <;> simp

theorem isSome_index_iff {name : String} : (index fields name).isSome ↔ name ∈ names fields := by
  simp only [index, names, List.find?_isSome, decide_eq_true_eq, List.mem_map]

theorem unknownNames_eq_nil : unknownNames fields items = [] ↔
    ∀ item ∈ items, (index fields item.1).isSome := by
  simp [unknownNames, isSome_index_iff, List.filter_eq_nil_iff]

/-- The items are accepted if nothing is wrong with them. -/
theorem acceptItems_isSome_iff
    (h : ∀ p ∈ fields, ∀ v, (p.valueInfo.accept .validate v).isSome ↔ p.valueInfo.faults v = []) :
    (acceptItems (fields.map (Param.map Info.acceptor)) items).isSome ↔
      faults (fields.map (Param.map Info.faults)) items = [] := by
  simp only [acceptItems, faults, missingNames_map, unknownNames_map, List.append_eq_nil_iff,
    List.map_eq_nil_iff, List.flatMap_eq_nil_iff]
  by_cases hnames : missingNames fields items = [] ∧ unknownNames fields items = []
  · rw [if_pos hnames, Option.isSome_map, Fallible.isSome_mapM_iff]
    simp only [hnames, true_and]
    refine forall₂_congr fun item hitem => ?_
    obtain ⟨p, hp⟩ := Option.isSome_iff_exists.1 (unknownNames_eq_nil.1 hnames.2 item hitem)
    simp only [acceptItem, itemFaults, index_map, hp, Option.map_some, Option.bind_some,
      Option.isSome_map, Option.elim_some, List.map_eq_nil_iff]
    exact h p (mem_of_index hp) item.2
  · rw [if_neg hnames]
    exact iff_of_false (by simp) fun hnil => hnames hnil.1

end Structure

/-- What is accepted is what nothing is wrong with. -/
theorem Info.accept_isSome_iff (d : Info A) :
    ∀ v, (d.accept .validate v).isSome ↔ d.faults v = [] := by
  induction d using Info.forall_of with
  | scalar s =>
    intro v
    rw [accept_scalar_validate, faults]
    split
    · next h => exact iff_of_true h rfl
    · next h => exact iff_of_false h (by simp)
  | struct default fields ih =>
    intro v
    rw [accept_struct_validate]
    cases v with
    | dict items =>
      rw [faults_struct, Structure.accept, Option.isSome_map]
      exact Structure.acceptItems_isSome_iff ih
    | _ => simp [Structure.accept, faults]
  | collection default allowed minSize maxSize ih =>
    intro v
    rw [faults]
    split
    · next h => exact iff_of_true h rfl
    · next h => exact iff_of_false h (by simp)

/-! ## What the exceptions name -/

namespace Structure
variable {fields : List (Param (Info A))} {items : List (String × Value A)}

theorem path_ne_nil {kind : Kind} {path : Path}
    (h : (kind, path) ∈ faults (fields.map (Param.map Info.faults)) items) : path ≠ [] := by
  rintro rfl
  rcases mem_faults.1 h with ⟨n, _, h⟩ | ⟨n, _, h⟩ | ⟨item, _, p, _, g, _, h⟩ <;> cases h

end Structure

theorem Info.path_ne_nil {d : Info A} {v : Value A} {kind : Kind} {path : Path}
    (h : (kind, path) ∈ d.faults v) (hkind : kind ≠ .invalid) : path ≠ [] := by
  cases d with
  | scalar s =>
    rw [faults] at h
    split at h
    · cases h
    · cases List.mem_singleton.1 h; exact absurd rfl hkind
  | struct default fields =>
    cases v with
    | dict items => rw [faults_struct] at h; exact Structure.path_ne_nil h
    | _ =>
      rw [faults_of_not_dict (by simp)] at h
      cases List.mem_singleton.1 h
      exact absurd rfl hkind
  | collection default allowed minSize maxSize =>
    rw [faults] at h
    split at h
    · cases h
    · cases List.mem_singleton.1 h; exact absurd rfl hkind

namespace Structure
variable {fields : List (Param (Info A))} {items : List (String × Value A)}

/-- A fault at the name of a field is one of the Structure itself. -/
theorem single_mem_faults {kind : Kind} {n : String} (hkind : kind ≠ .invalid) :
    (kind, [n]) ∈ faults (fields.map (Param.map Info.faults)) items ↔
      (kind = .missing ∧ n ∈ missingNames fields items) ∨
      (kind = .unknown ∧ n ∈ unknownNames fields items) := by
  rw [mem_faults]
  constructor
  · rintro (⟨n', hn, h⟩ | ⟨n', hn, h⟩ | ⟨item, hitem, p, hp, g, hg, h⟩)
    · cases h; exact .inl ⟨rfl, hn⟩
    · cases h; exact .inr ⟨rfl, hn⟩
    · obtain ⟨kind', path⟩ := g
      cases h
      exact absurd rfl (Info.path_ne_nil hg hkind)
  · rintro (⟨rfl, hn⟩ | ⟨rfl, hn⟩)
    · exact .inl ⟨n, hn, rfl⟩
    · exact .inr (.inl ⟨n, hn, rfl⟩)

theorem validateItems_error {e : Error}
    (h : validateItems (fields.map (Param.map Info.validator)) items = .error e) :
    e ≠ .valueError ∧ (e = .other ∨ ∃ item ∈ items, ∃ p, index fields item.1 = some p ∧
      p.valueInfo.validator.validate item.2 = .error e) := by
  induction items with
  | nil => cases h
  | cons item items ih =>
    obtain ⟨name, value⟩ := item
    have hlater (h : validateItems (fields.map (Param.map Info.validator)) items = .error e) :
        e ≠ .valueError ∧ (e = .other ∨ ∃ item ∈ (name, value) :: items, ∃ p,
          index fields item.1 = some p ∧ p.valueInfo.validator.validate item.2 = .error e) :=
      (ih h).imp_right fun h =>
        h.imp_right fun ⟨item, hitem, hp⟩ => ⟨item, List.mem_cons_of_mem _ hitem, hp⟩
    rw [validateItems, index_map] at h
    cases hp : index fields name with
    | none => rw [hp] at h; cases h; exact ⟨by simp, .inl rfl⟩
    | some p =>
      rw [hp] at h
      dsimp only [Option.map_some, Param.map_valueInfo] at h
      cases hv : p.valueInfo.validator.validate value with
      | ok w =>
        rw [hv] at h
        exact hlater (Fallible.error_of_map h)
      | error e' =>
        rw [hv] at h
        cases e' with
        | valueError => exact hlater (Fallible.error_of_map h)
        | _ =>
          cases h
          exact ⟨by simp, .inr ⟨(name, value), List.mem_cons_self, p, hp, hv⟩⟩

/-- Where no exception is raised by a loop, each value is valid or its name is kept. -/
theorem validateItems_ok {r : List (String × Value A) × List String}
    (h : validateItems (fields.map (Param.map Info.validator)) items = .ok r) :
    (∀ item ∈ items, ∃ p, index fields item.1 = some p ∧
      ((∃ w, p.valueInfo.validator.validate item.2 = .ok w) ∨
        p.valueInfo.validator.validate item.2 = .error .valueError ∧ item.1 ∈ r.2)) ∧
    ∀ n ∈ r.2, ∃ item ∈ items, ∃ p, index fields item.1 = some p ∧ item.1 = n ∧
      p.valueInfo.validator.validate item.2 = .error .valueError := by
  induction items generalizing r with
  | nil => cases h; simp
  | cons item items ih =>
    obtain ⟨name, value⟩ := item
    rw [validateItems, index_map] at h
    cases hp : index fields name with
    | none => rw [hp] at h; cases h
    | some p =>
      rw [hp] at h
      dsimp only [Option.map_some, Param.map_valueInfo] at h
      cases hrest : validateItems (fields.map (Param.map Info.validator)) items with
      | error e =>
        rw [hrest] at h
        cases hv : p.valueInfo.validator.validate value with
        | ok w => rw [hv] at h; cases h
        | error e' => rw [hv] at h; cases e' <;> cases h
      | ok rest =>
        obtain ⟨hall, hnames⟩ := ih hrest
        rw [hrest] at h
        cases hv : p.valueInfo.validator.validate value with
        | ok w =>
          rw [hv] at h
          cases h
          refine ⟨List.forall_mem_cons.2 ⟨⟨p, hp, .inl ⟨w, hv⟩⟩, hall⟩, fun n hn => ?_⟩
          obtain ⟨item, hitem, hq⟩ := hnames n hn
          exact ⟨item, List.mem_cons_of_mem _ hitem, hq⟩
        | error e' =>
          rw [hv] at h
          cases e' with
          | valueError =>
            cases h
            refine ⟨List.forall_mem_cons.2 ⟨⟨p, hp, .inr ⟨hv, List.mem_cons_self⟩⟩,
              fun item hitem => ?_⟩, fun n hn => ?_⟩
            · obtain ⟨q, hq, hitem⟩ := hall item hitem
              exact ⟨q, hq, hitem.imp_right fun h => ⟨h.1, List.mem_cons_of_mem _ h.2⟩⟩
            · rcases List.mem_cons.1 hn with rfl | hn
              · exact ⟨(n, value), List.mem_cons_self, p, hp, rfl, hv⟩
              · obtain ⟨item, hitem, hq⟩ := hnames n hn
                exact ⟨item, List.mem_cons_of_mem _ hitem, hq⟩
          | _ => cases h

end Structure

/-- What the names of an exception have to do with what is missing, or unknown: they are names of
    fields, and all that there are when the Structure itself is the one that misses some. -/
structure Names (kind : Kind) (names : List Path) (faults : List Fault) : Prop where
  ne_nil : names ≠ []
  single : ∀ path ∈ names, ∃ n, path = [n]
  own : (∃ n, (kind, [n]) ∈ faults) → ∀ n, [n] ∈ names ↔ (kind, [n]) ∈ faults

/-- The exception of a Structure of which a field is missing or unknown. -/
theorem Structure.names_own {fields : List (Param (Info A))} {items : List (String × Value A)}
    {kind : Kind} {own : List String} (hown : own ≠ [])
    (h : ∀ n, (kind, [n]) ∈ faults (fields.map (Param.map Info.faults)) items ↔ n ∈ own) :
    Names kind (own.map ([·])) (faults (fields.map (Param.map Info.faults)) items) where
  ne_nil := by simpa using hown
  single path hpath := by
    obtain ⟨n, _, rfl⟩ := List.mem_map.1 hpath
    exact ⟨n, rfl⟩
  own _ n := by rw [h]; simp

/-- Nothing is missing where a Structure nested further down raises. -/
theorem Names.nested {kind : Kind} {names : List Path} {inner faults : List Fault}
    (h : Names kind names inner) (hown : ∀ n, (kind, [n]) ∉ faults) : Names kind names faults :=
  ⟨h.ne_nil, h.single, fun ⟨n, hn⟩ => absurd hn (hown n)⟩

namespace Structure
variable {fields : List (Param (Info A))} {items : List (String × Value A)}

theorem missing_mem_faults {n : String} :
    (.missing, [n]) ∈ faults (fields.map (Param.map Info.faults)) items ↔
      n ∈ missingNames fields items := by
  rw [single_mem_faults (by simp)]
  simp

theorem unknown_mem_faults {n : String} :
    (.unknown, [n]) ∈ faults (fields.map (Param.map Info.faults)) items ↔
      n ∈ unknownNames fields items := by
  rw [single_mem_faults (by simp)]
  simp

/-- What a Structure raises: on its own behalf, or as one of its fields raised it. -/
theorem validate_error {e : Error}
    (h : validate (fields.map (Param.map Info.validator)) (.dict items) = .error e) :
    (missingNames fields items ≠ [] ∧ e = .missing ((missingNames fields items).map ([·]))) ∨
    missingNames fields items = [] ∧
      ((unknownNames fields items ≠ [] ∧ e = .unknown ((unknownNames fields items).map ([·]))) ∨
      unknownNames fields items = [] ∧
        ((∃ r, validateItems (fields.map (Param.map Info.validator)) items = .ok r ∧ r.2 ≠ [] ∧
          e = .invalid (r.2.map ([·]))) ∨
        validateItems (fields.map (Param.map Info.validator)) items = .error e)) := by
  rw [validate] at h
  simp only [missingNames_map, unknownNames_map] at h
  split at h
  · next hmissing => cases h; exact .inl ⟨hmissing, rfl⟩
  · next hmissing =>
    refine .inr ⟨not_not.1 hmissing, ?_⟩
    split at h
    · next hunknown => cases h; exact .inl ⟨hunknown, rfl⟩
    · next hunknown =>
      refine .inr ⟨not_not.1 hunknown, ?_⟩
      cases hr : validateItems (fields.map (Param.map Info.validator)) items with
      | error e' => rw [hr] at h; cases h; exact .inr rfl
      | ok r =>
        rw [hr] at h
        simp only [Except.bind] at h
        split at h
        · next hne => cases h; exact .inl ⟨r, rfl, hne, rfl⟩
        · cases h

end Structure

/-- The names of the exceptions that are no refusals. -/
theorem Info.names (d : Info A) : ∀ v names,
    (d.validator.validate v = .error (.missing names) → Names .missing names (d.faults v)) ∧
    (d.validator.validate v = .error (.unknown names) → Names .unknown names (d.faults v)) := by
  induction d using Info.forall_of with
  | scalar s =>
    intro v names
    rw [validator]
    constructor <;>
    · intro h
      rcases Refusal.error_of_mapError h with h | h <;> cases h
  | struct default fields ih =>
    intro v names
    rw [validator_struct]
    cases v with
    | dict items =>
      rw [faults_struct]
      constructor
      · intro h
        rcases Structure.validate_error h with ⟨hown, he⟩ | ⟨hmissing, ⟨_, he⟩ | ⟨_, ⟨r, _, _, he⟩ | h⟩⟩
        · cases he
          exact Structure.names_own hown fun n => Structure.missing_mem_faults
        · cases he
        · cases he
        · rcases (Structure.validateItems_error h).2 with he | ⟨item, hitem, p, hp, he⟩
          · cases he
          · refine ((ih p (mem_of_index hp) item.2 names).1 he).nested fun n => ?_
            rw [Structure.missing_mem_faults, hmissing]
            exact List.not_mem_nil
      · intro h
        rcases Structure.validate_error h with ⟨_, he⟩ | ⟨_, ⟨hown, he⟩ | ⟨hunknown, ⟨r, _, _, he⟩ | h⟩⟩
        · cases he
        · cases he
          exact Structure.names_own hown fun n => Structure.unknown_mem_faults
        · cases he
        · rcases (Structure.validateItems_error h).2 with he | ⟨item, hitem, p, hp, he⟩
          · cases he
          · refine ((ih p (mem_of_index hp) item.2 names).2 he).nested fun n => ?_
            rw [Structure.unknown_mem_faults, hunknown]
            exact List.not_mem_nil
    | _ => constructor <;> (intro h; cases h)
  | collection default allowed minSize maxSize ih =>
    intro v names
    have hcall := validator_collection default allowed minSize maxSize .validate
    have hnone : ∀ kind, kind ≠ .invalid → ∀ n,
        (kind, [n]) ∉ faults (.collection default allowed minSize maxSize) v := by
      intro kind hkind n hn
      rw [faults] at hn
      split at hn
      · cases hn
      · cases List.mem_singleton.1 hn
    rw [Validator.call_validate] at hcall
    rw [hcall]
    constructor <;>
    · intro h
      rcases Collection.convert_error h with he | ⟨_, _, _, x, _, convert, hc, he⟩
      · cases he
      · obtain ⟨d, hd, rfl⟩ := List.mem_map.1 hc
        first
        | exact ((ih d hd x names).1 he).nested (hnone _ (by simp))
        | exact ((ih d hd x names).2 he).nested (hnone _ (by simp))

theorem Info.faults_of_ok {d : Info A} {v w : Value A} (h : d.validator.validate v = .ok w) :
    d.faults v = [] := by
  have hagrees := d.agrees .validate v
  rw [Validator.call_validate, h] at hagrees
  rw [← accept_isSome_iff, hagrees.some_of_ok]
  rfl

theorem Info.faults_of_valueError {d : Info A} {v : Value A}
    (h : d.validator.validate v = .error .valueError) : d.faults v = [(.invalid, [])] := by
  have hagrees := d.agrees .validate v
  rw [Validator.call_validate, h] at hagrees
  have hnone := hagrees.none_of_error fun h => h
  cases d with
  | scalar s =>
    rw [accept_scalar_validate] at hnone
    rw [faults, hnone]
    rfl
  | struct default fields =>
    cases v with
    | dict items =>
      rw [validator_struct] at h
      rcases Structure.validate_error h with ⟨_, he⟩ | ⟨_, ⟨_, he⟩ | ⟨_, ⟨r, _, _, he⟩ | h⟩⟩
      · cases he
      · cases he
      · cases he
      · exact absurd rfl (Structure.validateItems_error h).1
    | _ => exact faults_of_not_dict (by simp)
  | collection default allowed minSize maxSize =>
    rw [faults, hnone]
    rfl

/-- What the names of an `InvalidParameters` have to do with what is invalid: they are all that is
    where nothing further down is. -/
structure Refused (names : List Path) (faults : List Fault) : Prop where
  ne_nil : names ≠ []
  single : ∀ path ∈ names, ∃ n, path = [n]
  deeper : ∃ path, path ≠ [] ∧ (.invalid, path) ∈ faults
  own : (∀ path, (.invalid, path) ∈ faults → path.length ≤ 1) →
    ∀ path, path ∈ names ↔ (.invalid, path) ∈ faults

theorem Structure.refused_own {fields : List (Param (Info A))} {items : List (String × Value A)}
    {r : List (String × Value A) × List String}
    (h : validateItems (fields.map (Param.map Info.validator)) items = .ok r) (hne : r.2 ≠ []) :
    Refused (r.2.map ([·])) (faults (fields.map (Param.map Info.faults)) items) := by
  obtain ⟨hall, hnames⟩ := validateItems_ok h
  have hmem : ∀ n ∈ r.2, (.invalid, [n]) ∈ faults (fields.map (Param.map Info.faults)) items := by
    intro n hn
    obtain ⟨item, hitem, p, hp, rfl, he⟩ := hnames n hn
    refine mem_faults.2 (.inr (.inr ⟨item, hitem, p, hp, (.invalid, []), ?_, rfl⟩))
    rw [Info.faults_of_valueError he]
    exact List.mem_singleton.2 rfl
  refine ⟨by simpa using hne, fun path hpath => ?_, ?_, fun _ path => ⟨fun hpath => ?_, ?_⟩⟩
  · obtain ⟨n, _, rfl⟩ := List.mem_map.1 hpath
    exact ⟨n, rfl⟩
  · obtain ⟨n, hn⟩ := List.exists_mem_of_ne_nil _ hne
    exact ⟨[n], by simp, hmem n hn⟩
  · obtain ⟨n, hn, rfl⟩ := List.mem_map.1 hpath
    exact hmem n hn
  · intro hpath
    rcases mem_faults.1 hpath with ⟨n, _, h⟩ | ⟨n, _, h⟩ | ⟨item, hitem, p, hp, g, hg, hpath⟩
    · cases h
    · cases h
    · obtain ⟨q, hq, hitem⟩ := hall item hitem
      cases hp.symm.trans hq
      rcases hitem with ⟨w, hw⟩ | ⟨he, hin⟩
      · rw [Info.faults_of_ok hw] at hg
        cases hg
      · rw [Info.faults_of_valueError he] at hg
        cases List.mem_singleton.1 hg
        cases hpath
        exact List.mem_map.2 ⟨item.1, hin, rfl⟩

/-- The names of an `InvalidParameters`. -/
theorem Info.refused (d : Info A) : ∀ v names,
    d.validator.validate v = .error (.invalid names) → Refused names (d.faults v) := by
  induction d using Info.forall_of with
  | scalar s =>
    intro v names h
    rw [validator] at h
    rcases Refusal.error_of_mapError h with h | h <;> cases h
  | struct default fields ih =>
    intro v names h
    rw [validator_struct] at h
    cases v with
    | dict items =>
      rw [faults_struct]
      rcases Structure.validate_error h with ⟨_, he⟩ | ⟨_, ⟨_, he⟩ | ⟨_, ⟨r, hr, hne, he⟩ | h⟩⟩
      · cases he
      · cases he
      · cases he
        exact Structure.refused_own hr hne
      · rcases (Structure.validateItems_error h).2 with he | ⟨item, hitem, p, hp, he⟩
        · cases he
        · have hp' := ih p (mem_of_index hp) item.2 names he
          obtain ⟨path, hpath, hmem⟩ := hp'.deeper
          have hmem' : (.invalid, item.1 :: path) ∈
              Structure.faults (fields.map (Param.map faults)) items :=
            Structure.mem_faults.2 (.inr (.inr ⟨item, hitem, p, hp, (.invalid, path), hmem, rfl⟩))
          refine ⟨hp'.ne_nil, hp'.single, ⟨_, by simp, hmem'⟩, fun hshort => ?_⟩
          have hlength := hshort _ hmem'
          exact absurd (List.length_eq_zero_iff.1 (Nat.le_zero.1 (Nat.le_of_succ_le_succ hlength)))
            hpath
    | _ => cases h
  | collection default allowed minSize maxSize ih =>
    intro v names h
    rw [← Validator.call_validate, validator_collection] at h
    rcases Collection.convert_error h with he | ⟨hescapes, _⟩
    · cases he
    · exact hescapes.elim

/-! ## The arguments of an action -/

/-- The first argument for which an exception is raised that is no refusal. -/
def firstEscape (parameters : List (Param (Info A))) (items : Arguments A) :
    Option (String × Error) :=
  items.findSome? fun item => (index parameters item.1).bind fun p =>
    match p.valueInfo.validator.validate item.2 with
    | .error (.missing names) => some (item.1, .missing names)
    | .error (.unknown names) => some (item.1, .unknown names)
    | .error .other => some (item.1, .other)
    | _ => none

namespace Action

/-- What becomes of an exception that is no refusal. -/
def failure (name : String) : Error → Failure
  | .missing names => .parameters .missing (names.map (name :: ·))
  | .unknown names => .parameters .unknown (names.map (name :: ·))
  | _ => .other

/-- The names of an argument that is refused. -/
def refusedPaths (parameters : List (Param (Info A))) (item : String × Value A) : List Path :=
  (index parameters item.1).elim [] fun p => match p.valueInfo.validator.validate item.2 with
    | .error .valueError => [[item.1]]
    | .error (.invalid names) => names.map (item.1 :: ·)
    | _ => []

variable {parameters : List (Param (Info A))} {items : Arguments A}

/-- The loop over the arguments, all of which are expected: it ends at the first exception that is
    no refusal, or collects the values and the names. -/
theorem validateItems_eq (hindex : ∀ item ∈ items, (index parameters item.1).isSome) :
    (∃ name e, firstEscape parameters items = some (name, e) ∧
      validateItems (parameters.map (Param.map Info.validator)) items = .error (failure name e)) ∨
    firstEscape parameters items = none ∧ ∃ validated,
      validateItems (parameters.map (Param.map Info.validator)) items =
        .ok (validated, items.flatMap (refusedPaths parameters)) ∧
      (items.flatMap (refusedPaths parameters) = [] →
        items.mapM (Structure.acceptItem (parameters.map (Param.map Info.acceptor))) =
          some validated) := by
  induction items with
  | nil => exact .inr ⟨rfl, [], rfl, fun _ => rfl⟩
  | cons item items ih =>
    obtain ⟨hitem, hitems⟩ := List.forall_mem_cons.1 hindex
    obtain ⟨name, value⟩ := item
    obtain ⟨p, hp⟩ := Option.isSome_iff_exists.1 hitem
    have hagrees := p.valueInfo.agrees .validate value
    rw [validateItems, index_map, hp, firstEscape, List.findSome?_cons, hp, List.flatMap_cons,
      refusedPaths, hp, List.mapM_cons, Structure.acceptItem, index_map, hp]
    simp only [Option.map_some, Param.map_valueInfo, Option.bind_some, Option.elim_some]
    rw [Validator.call_validate] at hagrees
    cases hv : p.valueInfo.validator.validate value with
    | ok w =>
      rw [hv] at hagrees
      have hsome : p.valueInfo.acceptor.accept .validate value = some w := hagrees.some_of_ok
      rw [hsome]
      rcases ih hitems with ⟨n, e, hescape, he⟩ | ⟨hescape, validated, he, haccept⟩
      · exact .inl ⟨n, e, hescape, by rw [he]; rfl⟩
      · refine .inr ⟨hescape, (name, w) :: validated, by rw [he]; rfl, fun hnil => ?_⟩
        rw [haccept hnil]
        rfl
    | error e =>
      cases e with
      | valueError =>
        rcases ih hitems with ⟨n, e, hescape, he⟩ | ⟨hescape, validated, he, _⟩
        · exact .inl ⟨n, e, hescape, by rw [he]; rfl⟩
        · exact .inr ⟨hescape, validated, by rw [he]; rfl, fun hnil => by cases hnil⟩
      | invalid names =>
        rcases ih hitems with ⟨n, e, hescape, he⟩ | ⟨hescape, validated, he, _⟩
        · exact .inl ⟨n, e, hescape, by rw [he]; rfl⟩
        · refine .inr ⟨hescape, validated, by rw [he]; rfl, fun hnil => ?_⟩
          have hnames := List.map_eq_nil_iff.1 (List.append_eq_nil_iff.1 hnil).1
          exact absurd hnames (p.valueInfo.refused value names hv).ne_nil
      | missing names => exact .inl ⟨name, .missing names, rfl, rfl⟩
      | unknown names => exact .inl ⟨name, .unknown names, rfl, rfl⟩
      | other => exact .inl ⟨name, .other, rfl, rfl⟩

theorem firstEscape_some {name : String} {e : Error}
    (h : firstEscape parameters items = some (name, e)) :
    e.Escapes ∧ ∃ value p, (name, value) ∈ items ∧ index parameters name = some p ∧
      p.valueInfo.validator.validate value = .error e := by
  obtain ⟨item, hitem, h⟩ := List.exists_of_findSome?_eq_some h
  obtain ⟨p, hp, h⟩ := Option.bind_eq_some_iff.1 h
  split at h <;> cases h <;> exact ⟨trivial, item.2, p, hitem, hp, by assumption⟩

theorem firstEscape_none (h : firstEscape parameters items = none) {item : String × Value A}
    {p : Param (Info A)} (hitem : item ∈ items) (hp : index parameters item.1 = some p) {e : Error}
    (he : p.valueInfo.validator.validate item.2 = .error e) : ¬ e.Escapes := by
  have hnone := List.findSome?_eq_none_iff.1 h item hitem
  rw [hp, Option.bind_some, he] at hnone
  cases e with
  | valueError | invalid names => exact fun h => h
  | _ => cases hnone

end Action

/-! ## What performing an action is for -/

namespace Action
variable (order : HashOrder String) (a : Action A) (args : List (Value A))
  (kwargs : Dict String (Value A))

/-- What is wrong with the arguments: too many values are, or what is wrong with one of them. -/
def faults : List Fault :=
  (given args kwargs).elim [(.parameter, ["value"])] fun kwargs =>
    Structure.faults (a.parameters.map (Param.map Info.faults)) (Dict.items order kwargs)

/-- The values of the arguments and the defaults of those that were left out. -/
def accepted : Option (Arguments A) :=
  (given args kwargs).bind fun kwargs =>
    Structure.acceptItems (a.parameters.map (Param.map Info.acceptor)) (Dict.items order kwargs)

/-- The effects are called with the values, if the action is enabled. -/
structure Runs (validated : Arguments A) (p : Performed A) : Prop where
  params : ∀ call ∈ p.calls, call.2 = others validated
  value : ∀ call ∈ p.calls.head?, call.1 = valueOf validated
  called : a.enabled = some true → a.effects ≠ [] → p.calls ≠ []
  completed : ∀ r, p.result = .ok r → p.calls.length = a.effects.length
  notRefused : (∀ kind names, p.result ≠ .error (.parameters kind names)) ∧
    p.result ≠ .error .other

/-- The names of an exception are those of all faults of its kind. -/
def Reports (kind : Kind) (names : List Path) (faults : List Fault) : Prop :=
  (∃ path, (kind, path) ∈ faults) ∧ ∀ path, path ∈ names ↔ (kind, path) ∈ faults

/-- Where nothing is wrong the effects get the values; otherwise none is called and all faults of
    one kind are named. -/
structure Validates : Prop where
  performed : a.faults order args kwargs = [] → ∃ validated,
    a.accepted order args kwargs = some validated ∧
      a.Runs validated (a.perform order args kwargs)
  refused : a.faults order args kwargs ≠ [] → ∃ kind names,
    a.perform order args kwargs = ⟨[], .error (.parameters kind names)⟩ ∧
      Reports kind names (a.faults order args kwargs)

/-- All faults of a kind are fields of this argument itself, and there is one. -/
def OnlyAt (kind : Kind) (name : String) (faults : List Fault) : Prop :=
  (∃ n, (kind, [name, n]) ∈ faults) ∧ ∀ path, (kind, path) ∈ faults → ∃ n, path = [name, n]

/-- Where the faults of the kind that is reported are those that can be named. -/
def Shallow : Prop :=
  ∀ g, given args kwargs = some g →
    (missingNames a.parameters (Dict.items order g) ≠ [] →
      ∀ path, (.missing, path) ∈ a.faults order args kwargs → path.length ≤ 1) ∧
    (missingNames a.parameters (Dict.items order g) = [] →
      (unknownNames a.parameters (Dict.items order g) ≠ [] →
        ∀ path, (.unknown, path) ∈ a.faults order args kwargs → path.length ≤ 1) ∧
      (unknownNames a.parameters (Dict.items order g) = [] →
        match firstEscape a.parameters (Dict.items order g) with
        | none => ∀ path, (.invalid, path) ∈ a.faults order args kwargs → path.length ≤ 2
        | some (name, .missing _) => OnlyAt .missing name (a.faults order args kwargs)
        | some (name, .unknown _) => OnlyAt .unknown name (a.faults order args kwargs)
        | some _ => False))

variable {order a args kwargs}

/-! ## The effects -/

theorem runEffects_spec (params : Arguments A) (effects : List (Effect A)) :
    ∀ value, (∀ call ∈ (runEffects params effects value).calls, call.2 = params) ∧
      (∀ call ∈ (runEffects params effects value).calls.head?, call.1 = value) ∧
      (effects ≠ [] → (runEffects params effects value).calls ≠ []) ∧
      (∀ r, (runEffects params effects value).result = .ok r →
        (runEffects params effects value).calls.length = effects.length) ∧
      ∀ e, (runEffects params effects value).result = .error e → e = .failed := by
  induction effects with
  | nil => intro value; simp [runEffects]
  | cons effect effects ih =>
    intro value
    rw [runEffects]
    cases effect value params with
    | none => simp
    | some result =>
      obtain ⟨hparams, _, _, hlength, herror⟩ := ih result
      refine ⟨List.forall_mem_cons.2 ⟨rfl, hparams⟩, by simp, by simp, fun r hr => ?_, herror⟩
      rw [List.length_cons, List.length_cons, hlength r hr]

theorem run_runs (validated : Arguments A) : a.Runs validated (a.run validated) := by
  obtain ⟨hparams, hvalue, hcalled, hlength, herror⟩ :=
    runEffects_spec (others validated) a.effects (valueOf validated)
  have hpublish : ∀ r e, a.publishResult r = .error e → e = .failed := by
    intro r e h
    rw [publishResult] at h
    cases hinfo : a.resultInfo with
    | none => rw [hinfo] at h; cases h
    | some info =>
      rw [hinfo] at h
      dsimp only at h
      cases hp : info.validator.publish r with
      | ok w => rw [hp] at h; cases h
      | error e' => rw [hp] at h; cases h; rfl
  rw [run]
  cases henabled : a.enabled with
  | none => exact ⟨by simp, by simp, by simp [henabled], by simp, by simp⟩
  | some enabled =>
    cases enabled with
    | false => exact ⟨by simp, by simp, by simp [henabled], by simp, by simp⟩
    | true =>
      have hfailed : ∀ e, (runEffects (others validated) a.effects (valueOf validated)).result.bind
          a.publishResult = .error e → e = .failed := by
        intro e h
        cases hr : (runEffects (others validated) a.effects (valueOf validated)).result with
        | ok r => rw [hr] at h; exact hpublish r e h
        | error e' => rw [hr] at h; cases h; exact herror e hr
      refine ⟨hparams, hvalue, fun _ => hcalled, fun r h => ?_,
        fun kind names h => (nomatch hfailed _ h), fun h => (nomatch hfailed _ h)⟩
      dsimp only at h
      cases hr : (runEffects (others validated) a.effects (valueOf validated)).result with
      | ok r => exact hlength r hr
      | error e' => rw [hr] at h; cases h

/-! ## The report -/

theorem validates_iff_reports {kind : Kind} {names : List Path}
    (h : a.perform order args kwargs = ⟨[], .error (.parameters kind names)⟩) :
    a.Validates order args kwargs ↔ Reports kind names (a.faults order args kwargs) := by
  constructor
  · intro hvalidates
    by_cases hnil : a.faults order args kwargs = []
    · obtain ⟨validated, _, hruns⟩ := hvalidates.performed hnil
      exact absurd (by rw [h]) (hruns.notRefused.1 kind names)
    · obtain ⟨kind', names', h', hreports⟩ := hvalidates.refused hnil
      rw [h] at h'
      cases h'
      exact hreports
  · intro hreports
    obtain ⟨path, hpath⟩ := hreports.1
    have hne : a.faults order args kwargs ≠ [] := List.ne_nil_of_mem hpath
    exact ⟨fun hnil => absurd hnil hne, fun _ => ⟨kind, names, h, hreports⟩⟩

theorem not_validates_of_other (h : a.perform order args kwargs = ⟨[], .error .other⟩) :
    ¬ a.Validates order args kwargs := by
  intro hvalidates
  by_cases hnil : a.faults order args kwargs = []
  · obtain ⟨validated, _, hruns⟩ := hvalidates.performed hnil
    exact hruns.notRefused.2 (by rw [h])
  · obtain ⟨kind', names', h', _⟩ := hvalidates.refused hnil
    rw [h] at h'
    cases h'

/-- Names of fields of one level are those of all faults if these are of this level. -/
theorem reports_own_iff {kind : Kind} {own : List String} {faults : List Fault} (hown : own ≠ [])
    (h : ∀ n, (kind, [n]) ∈ faults ↔ n ∈ own) (hne : ∀ path, (kind, path) ∈ faults → path ≠ []) :
    Reports kind (own.map ([·])) faults ↔ ∀ path, (kind, path) ∈ faults → path.length ≤ 1 := by
  constructor
  · intro hreports path hpath
    obtain ⟨n, _, rfl⟩ := List.mem_map.1 ((hreports.2 path).2 hpath)
    exact Nat.le_refl 1
  · intro hshort
    obtain ⟨n, hn⟩ := List.exists_mem_of_ne_nil own hown
    refine ⟨⟨[n], (h n).2 hn⟩, fun path => ⟨fun hpath => ?_, fun hpath => ?_⟩⟩
    · obtain ⟨n, hn, rfl⟩ := List.mem_map.1 hpath
      exact (h n).2 hn
    · obtain ⟨n, rfl⟩ := List.length_eq_one_iff.1
        (Nat.le_antisymm (hshort path hpath) (List.length_pos_iff.2 (hne path hpath)))
      exact List.mem_map.2 ⟨n, (h n).1 hpath, rfl⟩

section
variable {parameters : List (Param (Info A))} {items : Arguments A}

/-- The faults of an argument are those behind its name. -/
theorem within_mem_faults (hkeys : (items.map Prod.fst).Nodup) {name : String} {value : Value A}
    {p : Param (Info A)} (hitem : (name, value) ∈ items) (hp : index parameters name = some p)
    {kind : Kind} {path : Path} (hpath : path ≠ []) :
    (kind, name :: path) ∈ Structure.faults (parameters.map (Param.map Info.faults)) items ↔
      (kind, path) ∈ p.valueInfo.faults value := by
  rw [Structure.mem_faults]
  constructor
  · rintro (⟨n, _, h⟩ | ⟨n, _, h⟩ | ⟨item, hitem', q, hq, g, hg, h⟩)
    · cases h; exact absurd rfl hpath
    · cases h; exact absurd rfl hpath
    · obtain ⟨name', value'⟩ := item
      cases h
      cases List.inj_on_of_nodup_map hkeys hitem hitem' rfl
      cases hp.symm.trans hq
      exact hg
  · intro h
    exact .inr (.inr ⟨(name, value), hitem, p, hp, (kind, path), h, rfl⟩)

/-- What is reported of an argument for which an exception is raised. -/
theorem reports_nested_iff (hkeys : (items.map Prod.fst).Nodup) {name : String} {value : Value A}
    {p : Param (Info A)} (hitem : (name, value) ∈ items) (hp : index parameters name = some p)
    {kind : Kind} {names : List Path} (h : Names kind names (p.valueInfo.faults value)) :
    Reports kind (names.map (name :: ·))
        (Structure.faults (parameters.map (Param.map Info.faults)) items) ↔
      OnlyAt kind name (Structure.faults (parameters.map (Param.map Info.faults)) items) := by
  have hwithin : ∀ n, (kind, [name, n]) ∈
      Structure.faults (parameters.map (Param.map Info.faults)) items ↔
        (kind, [n]) ∈ p.valueInfo.faults value := fun n =>
    within_mem_faults hkeys hitem hp (by simp)
  have hform : ∀ path ∈ names.map (name :: ·), ∃ n, [n] ∈ names ∧ path = [name, n] := by
    intro path hpath
    obtain ⟨inner, hinner, rfl⟩ := List.mem_map.1 hpath
    obtain ⟨n, rfl⟩ := h.single inner hinner
    exact ⟨n, hinner, rfl⟩
  constructor
  · intro hreports
    refine ⟨?_, fun path hpath => ?_⟩
    · obtain ⟨path, hpath⟩ := hreports.1
      obtain ⟨n, _, rfl⟩ := hform path ((hreports.2 path).2 hpath)
      exact ⟨n, hpath⟩
    · obtain ⟨n, _, hn⟩ := hform path ((hreports.2 path).2 hpath)
      exact ⟨n, hn⟩
  · rintro ⟨⟨n, hn⟩, hall⟩
    have hown := h.own ⟨n, (hwithin n).1 hn⟩
    refine ⟨⟨_, hn⟩, fun path => ⟨fun hpath => ?_, fun hpath => ?_⟩⟩
    · obtain ⟨m, hm, rfl⟩ := hform path hpath
      exact (hwithin m).2 ((hown m).1 hm)
    · obtain ⟨m, rfl⟩ := hall path hpath
      exact List.mem_map.2 ⟨[m], (hown m).2 ((hwithin m).1 hpath), rfl⟩

theorem refusal_cases (hescape : firstEscape parameters items = none) {item : String × Value A}
    {p : Param (Info A)} (hitem : item ∈ items) (hp : index parameters item.1 = some p) :
    p.valueInfo.faults item.2 = [] ∧ refusedPaths parameters item = [] ∨
    p.valueInfo.faults item.2 = [(.invalid, [])] ∧ refusedPaths parameters item = [[item.1]] ∨
    ∃ names, Refused names (p.valueInfo.faults item.2) ∧
      refusedPaths parameters item = names.map (item.1 :: ·) := by
  rw [refusedPaths, hp, Option.elim_some]
  cases hv : p.valueInfo.validator.validate item.2 with
  | ok w => exact .inl ⟨Info.faults_of_ok hv, rfl⟩
  | error e =>
    have hrefusal := firstEscape_none hescape hitem hp hv
    cases e with
    | valueError => exact .inr (.inl ⟨Info.faults_of_valueError hv, rfl⟩)
    | invalid names => exact .inr (.inr ⟨names, p.valueInfo.refused item.2 names hv, rfl⟩)
    | _ => exact absurd trivial hrefusal

/-- What is reported where all exceptions are refusals. -/
theorem reports_refused_iff (hunknown : unknownNames parameters items = [])
    (hescape : firstEscape parameters items = none)
    (hne : items.flatMap (refusedPaths parameters) ≠ []) :
    Reports .invalid (items.flatMap (refusedPaths parameters))
        (Structure.faults (parameters.map (Param.map Info.faults)) items) ↔
      ∀ path, (.invalid, path) ∈
          Structure.faults (parameters.map (Param.map Info.faults)) items → path.length ≤ 2 := by
  have hfault : ∀ item ∈ items, ∀ p, index parameters item.1 = some p →
      ∀ path, (.invalid, path) ∈ p.valueInfo.faults item.2 →
        (.invalid, item.1 :: path) ∈
          Structure.faults (parameters.map (Param.map Info.faults)) items :=
    fun item hitem p hp path hpath =>
      Structure.mem_faults.2 (.inr (.inr ⟨item, hitem, p, hp, (.invalid, path), hpath, rfl⟩))
  constructor
  · intro hreports path hpath
    obtain ⟨item, hitem, hin⟩ := List.mem_flatMap.1 ((hreports.2 path).2 hpath)
    obtain ⟨p, hp⟩ := Option.isSome_iff_exists.1 (Structure.unknownNames_eq_nil.1 hunknown item hitem)
    rcases refusal_cases hescape hitem hp with ⟨_, h⟩ | ⟨_, h⟩ | ⟨names, hrefused, h⟩ <;>
      rw [h] at hin
    · cases hin
    · cases List.mem_singleton.1 hin
      exact Nat.le_succ 1
    · obtain ⟨inner, hinner, rfl⟩ := List.mem_map.1 hin
      obtain ⟨n, rfl⟩ := hrefused.single inner hinner
      exact Nat.le_refl 2
  · intro hshort
    have hnames : ∀ path, path ∈ items.flatMap (refusedPaths parameters) ↔
        (.invalid, path) ∈ Structure.faults (parameters.map (Param.map Info.faults)) items := by
      intro path
      have hown : ∀ item ∈ items, ∀ p, index parameters item.1 = some p → ∀ names,
          Refused names (p.valueInfo.faults item.2) →
            ∀ path, path ∈ names ↔ (.invalid, path) ∈ p.valueInfo.faults item.2 :=
        fun item hitem p hp names hrefused => hrefused.own fun path hpath =>
          Nat.le_of_succ_le_succ (hshort _ (hfault item hitem p hp path hpath))
      constructor
      · intro hin
        obtain ⟨item, hitem, hin⟩ := List.mem_flatMap.1 hin
        obtain ⟨p, hp⟩ :=
          Option.isSome_iff_exists.1 (Structure.unknownNames_eq_nil.1 hunknown item hitem)
        rcases refusal_cases hescape hitem hp with ⟨_, h⟩ | ⟨hf, h⟩ | ⟨names, hrefused, h⟩ <;>
          rw [h] at hin
        · cases hin
        · cases List.mem_singleton.1 hin
          exact hfault item hitem p hp [] (by rw [hf]; exact List.mem_singleton.2 rfl)
        · obtain ⟨inner, hinner, rfl⟩ := List.mem_map.1 hin
          exact hfault item hitem p hp inner ((hown item hitem p hp names hrefused inner).1 hinner)
      · intro hin
        rcases Structure.mem_faults.1 hin with ⟨n, _, h⟩ | ⟨n, _, h⟩ | ⟨item, hitem, p, hp, g, hg, h⟩
        · cases h
        · cases h
        · refine List.mem_flatMap.2 ⟨item, hitem, ?_⟩
          obtain ⟨kind, inner⟩ := g
          cases h
          rcases refusal_cases hescape hitem hp with ⟨hf, h⟩ | ⟨hf, h⟩ | ⟨names, hrefused, h⟩
          · rw [hf] at hg; cases hg
          · rw [hf] at hg
            cases List.mem_singleton.1 hg
            rw [h]
            exact List.mem_singleton.2 rfl
          · rw [h]
            exact List.mem_map.2 ⟨inner, (hown item hitem p hp names hrefused inner).2 hg, rfl⟩
    obtain ⟨path, hpath⟩ := List.exists_mem_of_ne_nil _ hne
    exact ⟨⟨path, (hnames path).1 hpath⟩, hnames⟩

/-- Where nothing is refused nothing is wrong. -/
theorem faults_eq_nil (hmissing : missingNames parameters items = [])
    (hunknown : unknownNames parameters items = []) (hescape : firstEscape parameters items = none)
    (hnil : items.flatMap (refusedPaths parameters) = []) :
    Structure.faults (parameters.map (Param.map Info.faults)) items = [] := by
  refine List.eq_nil_iff_forall_not_mem.2 fun f hf => ?_
  rcases Structure.mem_faults.1 hf with ⟨n, hn, _⟩ | ⟨n, hn, _⟩ | ⟨item, hitem, p, hp, g, hg, _⟩
  · rw [hmissing] at hn; cases hn
  · rw [hunknown] at hn; cases hn
  · have hitemnil := List.flatMap_eq_nil_iff.1 hnil item hitem
    rcases refusal_cases hescape hitem hp with ⟨hf, _⟩ | ⟨_, h⟩ | ⟨names, hrefused, h⟩
    · rw [hf] at hg; cases hg
    · rw [h] at hitemnil; cases hitemnil
    · rw [h, List.map_eq_nil_iff] at hitemnil
      exact hrefused.ne_nil hitemnil

end

/-- What is reported is complete, and effects are called with what was validated, if and only if
    the faults of the kind that is reported are no deeper than their names. -/
theorem validates_iff : a.Validates order args kwargs ↔ a.Shallow order args kwargs := by
  cases hgiven : given args kwargs with
  | none =>
    have hperform : a.perform order args kwargs =
        ⟨[], .error (.parameters .parameter [["value"]])⟩ := by rw [perform, hgiven]
    have hfaults : a.faults order args kwargs = [(.parameter, ["value"])] := by
      rw [faults, hgiven]; rfl
    rw [validates_iff_reports hperform, hfaults]
    refine iff_of_true ⟨⟨["value"], List.mem_singleton.2 rfl⟩, fun path => by simp⟩ fun g hg => ?_
    rw [hgiven] at hg
    cases hg
  | some g =>
    have hkeys := Dict.keys_nodup_items order g
    have hfaults : a.faults order args kwargs =
        Structure.faults (a.parameters.map (Param.map Info.faults)) (Dict.items order g) := by
      rw [faults, hgiven]; rfl
    have haccepted : a.accepted order args kwargs =
        Structure.acceptItems (a.parameters.map (Param.map Info.acceptor))
          (Dict.items order g) := by
      rw [accepted, hgiven]; rfl
    have hshallow : a.Shallow order args kwargs ↔ _ :=
      ⟨fun h => h g hgiven, fun h g' hg' => by cases hgiven.symm.trans hg'; exact h⟩
    rw [hshallow, hfaults]
    by_cases hmissing : missingNames a.parameters (Dict.items order g) = []
    · by_cases hunknown : unknownNames a.parameters (Dict.items order g) = []
      · have hindex := Structure.unknownNames_eq_nil.1 hunknown
        simp only [hmissing, hunknown, ne_eq, not_true_eq_false, false_implies, true_implies,
          true_and]
        rcases validateItems_eq hindex with ⟨name, e, hescape, he⟩ | ⟨hescape, validated, he, haccept⟩
        · have hperform : a.perform order args kwargs = ⟨[], .error (failure name e)⟩ := by
            simp [perform, hgiven, validateArguments, hmissing, hunknown, he, Except.bind]
          obtain ⟨hescapes, value, p, hitem, hp, hv⟩ := firstEscape_some hescape
          rw [hescape]
          cases e with
          | valueError | invalid names => exact hescapes.elim
          | other => exact iff_of_false (not_validates_of_other hperform) fun h => h
          | missing names =>
            rw [validates_iff_reports hperform, hfaults]
            exact reports_nested_iff hkeys hitem hp ((p.valueInfo.names value names).1 hv)
          | unknown names =>
            rw [validates_iff_reports hperform, hfaults]
            exact reports_nested_iff hkeys hitem hp ((p.valueInfo.names value names).2 hv)
        · rw [hescape]
          by_cases hnil : (Dict.items order g).flatMap (refusedPaths a.parameters) = []
          · have hfaultsnil := faults_eq_nil hmissing hunknown hescape hnil
            have hperform : a.perform order args kwargs =
                a.run (validated ++ leftOut Info.default a.parameters validated) := by
              simp [perform, hgiven, validateArguments, hmissing, hunknown, he, Except.bind, hnil,
                leftOut_map, Function.comp_def]
            refine iff_of_true ⟨fun _ => ⟨_, ?_, hperform ▸ run_runs _⟩, fun h => ?_⟩ ?_
            · rw [haccepted, Structure.acceptItems, missingNames_map, unknownNames_map,
                if_pos ⟨hmissing, hunknown⟩, haccept hnil, Option.map_some, leftOut_map]
              simp [Function.comp_def]
            · exact absurd (hfaults.trans hfaultsnil) h
            · intro path hpath
              rw [hfaultsnil] at hpath
              cases hpath
          · have hperform : a.perform order args kwargs = ⟨[], .error (.parameters .invalid
                ((Dict.items order g).flatMap (refusedPaths a.parameters)))⟩ := by
              simp [perform, hgiven, validateArguments, hmissing, hunknown, he, Except.bind, hnil]
            rw [validates_iff_reports hperform, hfaults]
            exact reports_refused_iff hunknown hescape hnil
      · have hperform : a.perform order args kwargs = ⟨[], .error (.parameters .unknown
            ((unknownNames a.parameters (Dict.items order g)).map ([·])))⟩ := by
          simp [perform, hgiven, validateArguments, hmissing, hunknown]
        rw [validates_iff_reports hperform, hfaults, reports_own_iff hunknown
          (fun n => Structure.unknown_mem_faults) fun path h => Structure.path_ne_nil h]
        simp [hmissing, hunknown]
    · have hperform : a.perform order args kwargs = ⟨[], .error (.parameters .missing
          ((missingNames a.parameters (Dict.items order g)).map ([·])))⟩ := by
        simp [perform, hgiven, validateArguments, hmissing]
      rw [validates_iff_reports hperform, hfaults, reports_own_iff hmissing
        (fun n => Structure.missing_mem_faults) fun path h => Structure.path_ne_nil h]
      simp [hmissing]

/-- An action with one parameter, a Structure with a Structure as its field. -/
def nestedAction : Action Unit where
  parameters := [⟨"struc", true, .struct none [⟨"inner", true, .struct none
    [⟨"field1", true, .scalar ⟨none, .ok, .ok⟩⟩]⟩]⟩]
  effects := []
  resultInfo := none
  enabled := some true

/-- The field that is missing is named `struc.field1`, and is `struc.inner.field1`. -/
theorem inner_name_lost : ¬ nestedAction.Validates .stored []
    (AList.singleton "struc" (.dict [("inner", .dict [])])) := by
  intro h
  have hfaults : nestedAction.faults .stored []
      (AList.singleton "struc" (.dict [("inner", .dict [])])) =
        [(.missing, ["struc", "inner", "field1"])] := by
    decide +kernel
  have hperform : nestedAction.perform .stored []
      (AList.singleton "struc" (.dict [("inner", .dict [])])) =
        ⟨[], .error (.parameters .missing [["struc", "field1"]])⟩ := by
    rfl
  obtain ⟨kind, names, hraised, hreports⟩ := h.refused (by rw [hfaults]; simp)
  rw [hperform] at hraised
  cases hraised
  have hin := (hreports.2 ["struc", "field1"]).1 (List.mem_singleton.2 rfl)
  rw [hfaults] at hin
  simp at hin

end Action

end Feat.Models
