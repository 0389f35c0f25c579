import Mathlib.Data.List.Dedup
import Feat.Lib.Fallible
import Feat.Lib.Hash

/- Queries over indexed fields (`feat.database.query`: `Condition`, `Query`,
   `get_basic_queries`, `_calculate_query_response`, `_get_sorted_slice`,
   `select_ids`).

   A query combines conditions and nested queries with one operator. Every basic
   condition is fetched once from the index of its field; the answers are
   combined as sets, and the rows are handed out along the index of the sorting
   field. What that index does not mention comes last, in the order the set pops
   it.

   The answers are a function of the condition, and the iteration orders of the
   responses and of the sets are arbitrary (`Orders`). -/
namespace Feat.Database
open Hash Fallible

/-- An evaluator with its value. -/
inductive Test (Value : Type) where
  | equals (value : Value)
  | le (value : Value)
  | ge (value : Value)
  | between (lower upper : Value)
  | inside (values : List Value)
  | none
  deriving DecidableEq

/-- `Condition`. -/
structure Condition (Value : Type) where
  field : String
  test : Test Value
  deriving DecidableEq

inductive Operator where
  | and
  | or
  deriving DecidableEq

inductive Direction where
  | asc
  | desc
  deriving DecidableEq

/-- The keywords of a query. `aggregate` holds the handlers with their fields. -/
structure Options (Value : Type) where
  sorting : String × Direction
  includeValue : List String
  aggregate : List ((List Value → Value) × String)

/-- A condition, or a query: its parts, of which there is at least one, and the operator
between them, which is the same everywhere. -/
inductive Part (Value : Type) where
  | condition (c : Condition Value) : Part Value
  | query (first : Part Value) (rest : List (Part Value)) (operator : Operator)
      (options : Options Value) : Part Value

/-- `Query`. -/
structure Query (Value : Type) where
  first : Part Value
  rest : List (Part Value)
  operator : Operator
  options : Options Value

def Query.toPart {Value : Type} (q : Query Value) : Part Value :=
  .query q.first q.rest q.operator q.options

/-! ## The conditions to fetch -/

section BasicQueries
variable {Value : Type} [DecidableEq Value]

/-- Add the full range of `field` when no condition is about it. -/
def includeField (temp : List (Condition Value)) (field : String) : List (Condition Value) :=
  if temp.any (fun x => x.field = field) then temp else temp ++ [⟨field, .none⟩]

/-- Keep the first of equal conditions. -/
def removeDuplicates (temp : List (Condition Value)) : List (Condition Value) :=
  temp.foldl (fun resp x => if x ∈ resp then resp else resp ++ [x]) []

/-- What `get_basic_queries` makes of the conditions of the parts. -/
def completeQueries (temp : List (Condition Value)) (options : Options Value) :
    List (Condition Value) :=
  removeDuplicates ((options.sorting.1 :: options.includeValue ++
    options.aggregate.map Prod.snd).foldl includeField temp)

mutual
/-- `get_basic_queries`. -/
def Part.getBasicQueries : Part Value → List (Condition Value)
  | .condition c => [c]
  | .query first rest _ options =>
    completeQueries (first.getBasicQueries ++ basicQueriesOf rest) options

/-- The conditions of a list of parts. -/
def basicQueriesOf : List (Part Value) → List (Condition Value)
  | [] => []
  | part :: rest => part.getBasicQueries ++ basicQueriesOf rest
end

def Query.getBasicQueries (q : Query Value) : List (Condition Value) :=
  q.toPart.getBasicQueries

omit [DecidableEq Value] in
theorem subset_includeField (temp : List (Condition Value)) (field : String) :
    temp ⊆ includeField temp field := by
  intro c hc
  unfold includeField
  split
  · exact hc
  · exact List.mem_append_left _ hc

omit [DecidableEq Value] in
theorem includeField_has (temp : List (Condition Value)) (field : String) :
    ∃ c ∈ includeField temp field, c.field = field := by
  unfold includeField
  split
  · rename_i h
    obtain ⟨c, hc, he⟩ := List.any_eq_true.mp h
    exact ⟨c, hc, of_decide_eq_true he⟩
  · exact ⟨⟨field, .none⟩, by simp, rfl⟩

omit [DecidableEq Value] in
theorem subset_foldl_includeField (fields : List String) (temp : List (Condition Value)) :
    temp ⊆ fields.foldl includeField temp := by
  induction fields generalizing temp with
  | nil => exact List.Subset.refl _
  | cons field fields ih => exact List.Subset.trans (subset_includeField temp field) (ih _)

theorem foldl_includeField_has {fields : List String} {field : String} (h : field ∈ fields)
    (temp : List (Condition Value)) :
    ∃ c ∈ fields.foldl includeField temp, c.field = field := by
  induction fields generalizing temp with
  | nil => cases h
  | cons f fields ih =>
    rcases List.mem_cons.mp h with he | hin
    · subst he
      obtain ⟨c, hc, hf⟩ := includeField_has temp field
      exact ⟨c, subset_foldl_includeField fields _ hc, hf⟩
    · exact ih hin _

@[simp] theorem mem_removeDuplicates {temp : List (Condition Value)} {c : Condition Value} :
    c ∈ removeDuplicates temp ↔ c ∈ temp := by
  have hfold : ∀ resp : List (Condition Value),
      c ∈ temp.foldl (fun resp x => if x ∈ resp then resp else resp ++ [x]) resp ↔
        c ∈ resp ∨ c ∈ temp := by
    induction temp with
    | nil => simp
    | cons x temp ih =>
      intro resp
      rw [List.foldl_cons, ih, List.mem_cons]
      split
      · rename_i hx
        refine ⟨fun h => h.imp_right Or.inr, ?_⟩
        rintro (h | rfl | h)
        · exact Or.inl h
        · exact Or.inl hx
        · exact Or.inr h
      · simp [or_assoc]
  simpa [removeDuplicates] using hfold []

theorem mem_completeQueries {temp : List (Condition Value)} {options : Options Value}
    {c : Condition Value} (h : c ∈ temp) : c ∈ completeQueries temp options :=
  mem_removeDuplicates.mpr (subset_foldl_includeField _ _ h)

/-- Some condition to fetch is about each field that the query sorts by, includes or aggregates. -/
theorem field_fetched {q : Query Value} {field : String}
    (h : field ∈ q.options.sorting.1 :: q.options.includeValue ++
      q.options.aggregate.map Prod.snd) : ∃ c ∈ q.getBasicQueries, c.field = field := by
  obtain ⟨c, hc, hf⟩ :=
    foldl_includeField_has h (q.first.getBasicQueries ++ basicQueriesOf q.rest)
  exact ⟨c, mem_removeDuplicates.mpr hc, hf⟩

theorem sorting_fetched (q : Query Value) :
    ∃ c ∈ q.getBasicQueries, c.field = q.options.sorting.1 := field_fetched List.mem_cons_self

end BasicQueries

/-! ## Combining the answers -/

/-- `ParsedIndex`: the ids a condition selects and, where the controller keeps them, their
values. -/
structure ParsedIndex (Value : Type) where
  entries : List String
  values : Option (Dict String Value)

/-- How `select_ids` fails. -/
inductive QueryError (Value : Type) where
  | keyError (key : Condition Value)
  | typeError
  | attributeError
  deriving DecidableEq

/-- A set operation on the answers of two parts. -/
def Operator.combine : Operator → List String → List String → List String
  | .and, rows, rows' => rows.filter (· ∈ rows')
  | .or, rows, rows' => rows ++ rows'.filter (· ∉ rows)

section Response
variable {Value : Type} [DecidableEq Value]

abbrev Responses (Value : Type) : Type := Dict (Condition Value) (ParsedIndex Value)

mutual
/-- `_calculate_query_response`. -/
def Part.calculateResponse (responses : Responses Value) :
    Part Value → Except (QueryError Value) (List String)
  | .condition c =>
    match responses.lookup c with
    | some index => .ok index.entries.dedup
    | none => .error (.keyError c)
  | .query first rest operator _ => do
    let rows ← first.calculateResponse responses
    return (← responsesOf responses rest).foldl operator.combine rows

/-- The answers of a list of parts. -/
def responsesOf (responses : Responses Value) :
    List (Part Value) → Except (QueryError Value) (List (List String))
  | [] => .ok []
  | part :: rest => do
    let rows ← part.calculateResponse responses
    return rows :: (← responsesOf responses rest)
end

/-- `_get_query_response`: every condition is fetched, and the answers are combined. -/
def Query.fetch (q : Query Value) (answer : Condition Value → ParsedIndex Value) :
    Responses Value :=
  Dict.ofList (q.getBasicQueries.map (fun c => (c, answer c)))

mutual
/-- What the boolean combination of the conditions says about a document. -/
def Part.Denotes (answer : Condition Value → ParsedIndex Value) (id : String) :
    Part Value → Prop
  | .condition c => id ∈ (answer c).entries
  | .query first rest .and _ => first.Denotes answer id ∧ allDenote answer id rest
  | .query first rest .or _ => first.Denotes answer id ∨ anyDenotes answer id rest

def allDenote (answer : Condition Value → ParsedIndex Value) (id : String) :
    List (Part Value) → Prop
  | [] => True
  | part :: rest => part.Denotes answer id ∧ allDenote answer id rest

def anyDenotes (answer : Condition Value → ParsedIndex Value) (id : String) :
    List (Part Value) → Prop
  | [] => False
  | part :: rest => part.Denotes answer id ∨ anyDenotes answer id rest
end

/-- The documents a query matches. -/
def Query.Matches (q : Query Value) (answer : Condition Value → ParsedIndex Value)
    (id : String) : Prop :=
  q.toPart.Denotes answer id

theorem mem_foldl_and (rs : List (List String)) (rows : List String) (id : String) :
    id ∈ rs.foldl Operator.and.combine rows ↔ id ∈ rows ∧ ∀ r ∈ rs, id ∈ r := by
  induction rs generalizing rows with
  | nil => simp
  | cons r rs ih => simp [ih, Operator.combine, and_assoc]

theorem mem_foldl_or (rs : List (List String)) (rows : List String) (id : String) :
    id ∈ rs.foldl Operator.or.combine rows ↔ id ∈ rows ∨ ∃ r ∈ rs, id ∈ r := by
  induction rs generalizing rows with
  | nil => simp
  | cons r rs ih =>
    have hr : id ∈ Operator.or.combine rows r ↔ id ∈ rows ∨ id ∈ r := by
      by_cases h : id ∈ rows <;> simp [Operator.combine, h]
    simp [ih, hr, or_assoc]

theorem foldl_combine_nodup (operator : Operator) {rs : List (List String)} {rows : List String}
    (hrows : rows.Nodup) (hrs : ∀ r ∈ rs, r.Nodup) : (rs.foldl operator.combine rows).Nodup := by
  induction rs generalizing rows with
  | nil => exact hrows
  | cons r rs ih =>
    refine ih ?_ (fun r' hr' => hrs r' (List.mem_cons_of_mem r hr'))
    cases operator with
    | and => exact hrows.filter _
    | or =>
      refine List.Nodup.append hrows ((hrs r List.mem_cons_self).filter _) ?_
      intro id h h'
      simp at h'
      exact h'.2 h

/-- The responses of a query answer every condition in it. -/
def Covers (responses : Responses Value) (answer : Condition Value → ParsedIndex Value)
    (conditions : List (Condition Value)) : Prop :=
  ∀ c ∈ conditions, responses.lookup c = some (answer c)

/-- A set operation on answers that hold what the parts denote. -/
structure Answers (rows : List String) (denotes : String → Prop) : Prop where
  nodup : rows.Nodup
  mem : ∀ id, id ∈ rows ↔ denotes id

mutual
/-- Combining the answers computes what the query denotes. -/
theorem Part.calculateResponse_spec {responses : Responses Value}
    {answer : Condition Value → ParsedIndex Value} :
    ∀ part : Part Value, Covers responses answer part.getBasicQueries →
      ∃ rows, part.calculateResponse responses = .ok rows ∧
        Answers rows (fun id => part.Denotes answer id)
  | .condition c, h => by
    refine ⟨(answer c).entries.dedup, ?_, List.nodup_dedup _, ?_⟩
    · simp [Part.calculateResponse, h c (by simp [Part.getBasicQueries])]
    · intro id
      simp [Part.Denotes]
  | .query first rest operator options, h => by
    have hparts : Covers responses answer (first.getBasicQueries ++ basicQueriesOf rest) := by
      intro c hc
      exact h c (by rw [Part.getBasicQueries]; exact mem_completeQueries hc)
    obtain ⟨rows, hrows, hfirst⟩ := first.calculateResponse_spec
      (fun c hc => hparts c (List.mem_append_left _ hc))
    obtain ⟨rs, hrs, hnodup, hall, hany⟩ := responsesOf_spec rest
      (fun c hc => hparts c (List.mem_append_right _ hc))
    refine ⟨rs.foldl operator.combine rows, ?_, foldl_combine_nodup operator hfirst.nodup hnodup, ?_⟩
    · simp [Part.calculateResponse, hrows, hrs, bind, Except.bind, pure, Except.pure]
    · intro id
      cases operator with
      | and => rw [mem_foldl_and, hfirst.mem, hall, Part.Denotes]
      | or => rw [mem_foldl_or, hfirst.mem, hany, Part.Denotes]

theorem responsesOf_spec {responses : Responses Value}
    {answer : Condition Value → ParsedIndex Value} :
    ∀ parts : List (Part Value), Covers responses answer (basicQueriesOf parts) →
      ∃ rs, responsesOf responses parts = .ok rs ∧ (∀ r ∈ rs, r.Nodup) ∧
        (∀ id, (∀ r ∈ rs, id ∈ r) ↔ allDenote answer id parts) ∧
        (∀ id, (∃ r ∈ rs, id ∈ r) ↔ anyDenotes answer id parts)
  | [], _ => ⟨[], rfl, by simp, by simp [allDenote], by simp [anyDenotes]⟩
  | part :: rest, h => by
    rw [basicQueriesOf] at h
    obtain ⟨rows, hrows, hpart⟩ := part.calculateResponse_spec
      (fun c hc => h c (List.mem_append_left _ hc))
    obtain ⟨rs, hrs, hnodup, hall, hany⟩ := responsesOf_spec rest
      (fun c hc => h c (List.mem_append_right _ hc))
    refine ⟨rows :: rs, ?_, ?_, ?_, ?_⟩
    · simp [responsesOf, hrows, hrs, bind, Except.bind, pure, Except.pure]
    · simpa using ⟨hpart.nodup, hnodup⟩
    · intro id
      simp [allDenote, hpart.mem, hall]
    · intro id
      simp [anyDenotes, hpart.mem, hany]
end

theorem fetch_lookup (q : Query Value) (answer : Condition Value → ParsedIndex Value)
    {c : Condition Value} (h : c ∈ q.getBasicQueries) :
    (q.fetch answer).lookup c = some (answer c) :=
  Dict.lookup_ofList_graph answer h

theorem fetch_mem {q : Query Value} {answer : Condition Value → ParsedIndex Value}
    {c : Condition Value} {index : ParsedIndex Value}
    (h : (q.fetch answer).lookup c = some index) : c ∈ q.getBasicQueries ∧ index = answer c := by
  obtain ⟨c', hc', he⟩ := List.mem_map.mp (Dict.mem_of_lookup_ofList h)
  cases he
  exact ⟨hc', rfl⟩

end Response

/-! ## Handing out the rows -/

/-- `_get_sorted_slice`: walk the index, then pop what is left. -/
def getSortedSlice (o : HashOrder String) (skip stop : Nat) :
    List String → List String → Nat → List String
  | [], rows, seen => (o.arrange rows).take (stop - seen)
  | value :: index, rows, seen =>
    if rows = [] then []
    else if value ∈ rows then
      let rest := if seen + 1 > stop then [] else
        getSortedSlice o skip stop index (rows.erase value) (seen + 1)
      if skip < seen + 1 ∧ seen + 1 ≤ stop then value :: rest else rest
    else getSortedSlice o skip stop index rows seen

/-- The rows the index mentions, in its order. -/
def indexed : List String → List String → List String
  | [], _ => []
  | value :: index, rows =>
    if value ∈ rows then value :: indexed index (rows.erase value) else indexed index rows

/-- The rows the index does not mention. -/
def unindexed : List String → List String → List String
  | [], rows => rows
  | value :: index, rows => unindexed index (rows.erase value)

theorem indexed_nil (index : List String) : indexed index [] = [] := by
  induction index with
  | nil => rfl
  | cons value index ih => simp [indexed, ih]

theorem unindexed_nil (index : List String) : unindexed index [] = [] := by
  induction index with
  | nil => rfl
  | cons value index ih => simp [unindexed, ih]

theorem indexed_perm (index rows : List String) :
    (indexed index rows ++ unindexed index rows).Perm rows := by
  induction index generalizing rows with
  | nil => exact List.Perm.refl _
  | cons value index ih =>
    unfold indexed unindexed
    split
    · rename_i h
      exact ((ih _).cons value).trans (List.perm_cons_erase h).symm
    · rename_i h
      rw [List.erase_of_not_mem h]
      exact ih rows

/-- What a window gets: the indexed rows in it, and rows the index does not mention for the
places behind all indexed rows, as many as there are places up to its end. -/
theorem getSortedSlice_eq (o : HashOrder String) (skip stop : Nat) (index rows : List String)
    (seen : Nat) :
    getSortedSlice o skip stop index rows seen =
      ((indexed index rows).take (stop - seen)).drop (skip - seen) ++
        (o.arrange (unindexed index rows)).take (stop - seen - (indexed index rows).length) := by
  induction index generalizing rows seen with
  | nil => simp [getSortedSlice, indexed, unindexed]
  | cons value index ih =>
    unfold getSortedSlice
    by_cases hrows : rows = []
    · rw [if_pos hrows]
      subst hrows
      have harrange : o.arrange [] = [] := List.perm_nil.mp (o.perm [])
      simp [indexed_nil, unindexed_nil, harrange]
    rw [if_neg hrows]
    by_cases hmem : value ∈ rows
    · rw [if_pos hmem]
      simp only [indexed, unindexed, if_pos hmem, List.length_cons]
      by_cases hstop : seen + 1 > stop
      · -- the window is over
        have hzero : stop - seen = 0 := by omega
        rw [if_pos hstop, if_neg (by omega), hzero]
        simp
      · have hsucc : stop - seen = (stop - (seen + 1)) + 1 := by omega
        rw [if_neg hstop, ih, hsucc, List.take_succ_cons, Nat.add_sub_add_right]
        by_cases hskip : skip < seen + 1
        · have h₁ : skip - seen = 0 := by omega
          have h₂ : skip - (seen + 1) = 0 := by omega
          rw [if_pos ⟨hskip, by omega⟩, h₁, h₂]
          rfl
        · have h₁ : skip - seen = (skip - (seen + 1)) + 1 := by omega
          rw [if_neg (fun h => hskip h.1), h₁, List.drop_succ_cons]
    · rw [if_neg hmem, ih]
      simp only [indexed, unindexed, if_neg hmem, List.erase_of_not_mem hmem]

/-! ## Selecting -/

/-- Iteration orders: of the responses, and of the sets of ids a window pops from or a handler
is given. -/
structure Orders (Value : Type) where
  responses : HashOrder (Condition Value)
  pops : HashOrder String
  aggregates : HashOrder String

/-- `Result`. -/
structure Result (Value : Type) where
  rows : List String
  totalCount : Nat
  aggregations : Option (List Value)
  deriving DecidableEq

section Select
variable {Value : Type} [DecidableEq Value]

/-- `first(v for k, v in responses.iteritems() if k.field == name)`. -/
def firstResponse (o : HashOrder (Condition Value)) (responses : Responses Value)
    (name : String) : Option (ParsedIndex Value) :=
  ((Dict.items o responses).find? (fun p => p.1.field = name)).map Prod.snd

/-- The entries in the direction of the sorting. -/
def Direction.orient : Direction → List String → List String
  | .asc, entries => entries
  | .desc, entries => entries.reverse

/-- What a handler makes of the values of the rows. -/
def aggregateRows (o : Orders Value) (responses : Responses Value) (rows : List String)
    (handler : (List Value → Value) × String) : Except (QueryError Value) Value :=
  match (firstResponse o.responses responses handler.2).bind ParsedIndex.values with
  | none => .error .attributeError
  | some values => .ok (handler.1 ((o.aggregates.arrange rows).filterMap values.lookup))

/-- `select_ids`. -/
def selectIds (o : Orders Value) (q : Query Value) (answer : Condition Value → ParsedIndex Value)
    (skip : Nat) (limit : Option Nat) : Except (QueryError Value) (Result Value) := do
  let responses := q.fetch answer
  let temp ← q.toPart.calculateResponse responses
  let stop := (limit.map (skip + ·)).getD temp.length
  match firstResponse o.responses responses q.options.sorting.1 with
  | none => .error .typeError
  | some index =>
    let rows := getSortedSlice o.pops skip stop (q.options.sorting.2.orient index.entries) temp 0
    if q.options.aggregate = [] then return ⟨rows, temp.length, none⟩
    else
      let aggregations ← q.options.aggregate.mapM (aggregateRows o responses temp)
      return ⟨rows, temp.length, some aggregations⟩

/-- The controllers of the aggregated fields keep the values. -/
def Query.KeepsValues (q : Query Value) (answer : Condition Value → ParsedIndex Value) : Prop :=
  ∀ c ∈ q.getBasicQueries, c.field ∈ q.options.aggregate.map Prod.snd → (answer c).values ≠ none

/-- A field some condition is about has a response. -/
theorem firstResponse_of_mem (o : HashOrder (Condition Value)) {q : Query Value}
    {answer : Condition Value → ParsedIndex Value} {name : String}
    (h : ∃ c ∈ q.getBasicQueries, c.field = name) :
    ∃ c ∈ q.getBasicQueries, c.field = name ∧
      firstResponse o (q.fetch answer) name = some (answer c) := by
  obtain ⟨c, hc, hf⟩ := h
  have hitem := Dict.mem_items (o := o).mpr (fetch_lookup q answer hc)
  cases hfind : (Dict.items o (q.fetch answer)).find? (fun p => p.1.field = name) with
  | none =>
    rw [List.find?_eq_none] at hfind
    exact absurd (decide_eq_true hf) (hfind _ hitem)
  | some p =>
    obtain ⟨hc', he⟩ := fetch_mem (Dict.mem_items.mp (List.mem_of_find?_eq_some hfind))
    refine ⟨p.1, hc', by simpa using List.find?_some hfind, ?_⟩
    rw [firstResponse, hfind, Option.map_some, he]

theorem aggregated_fetched {q : Query Value} {handler : (List Value → Value) × String}
    (h : handler ∈ q.options.aggregate) : ∃ c ∈ q.getBasicQueries, c.field = handler.2 :=
  field_fetched (List.mem_append_right _ (List.mem_map_of_mem h))

theorem aggregateRows_ok (o : Orders Value) {q : Query Value}
    {answer : Condition Value → ParsedIndex Value} (hkeeps : q.KeepsValues answer)
    (rows : List String) {handler : (List Value → Value) × String}
    (h : handler ∈ q.options.aggregate) :
    ∃ v, aggregateRows o (q.fetch answer) rows handler = .ok v := by
  obtain ⟨c, hc, hf, hfirst⟩ :=
    firstResponse_of_mem o.responses (aggregated_fetched h)
  unfold aggregateRows
  rw [hfirst, Option.bind_some]
  cases hv : (answer c).values with
  | some values => exact ⟨_, rfl⟩
  | none => exact absurd hv (hkeeps c hc (by rw [hf]; exact List.mem_map_of_mem h))

/-- A selection succeeds. It counts the documents the query matches, and its window is cut
from the rows the index of some condition on the sorting field mentions, in the order of that
index, followed by the other rows. -/
theorem selectIds_spec (o : HashOrder (Condition Value)) (q : Query Value)
    (answer : Condition Value → ParsedIndex Value) (hkeeps : q.KeepsValues answer) :
    ∃ c ∈ q.getBasicQueries, c.field = q.options.sorting.1 ∧
      firstResponse o (q.fetch answer) q.options.sorting.1 = some (answer c) ∧
      ∃ temp, Answers temp (fun id => q.Matches answer id) ∧
        ∀ pops aggregates skip limit, ∃ r,
          selectIds ⟨o, pops, aggregates⟩ q answer skip limit = .ok r ∧
          r.totalCount = temp.length ∧
          r.rows = getSortedSlice pops skip ((limit.map (skip + ·)).getD temp.length)
            (q.options.sorting.2.orient (answer c).entries) temp 0 := by
  obtain ⟨c, hc, hf, hfirst⟩ := firstResponse_of_mem o (sorting_fetched q)
  have hcovers : Covers (q.fetch answer) answer q.toPart.getBasicQueries :=
    fun c hc => fetch_lookup q answer hc
  obtain ⟨temp, htemp, hanswers⟩ := q.toPart.calculateResponse_spec hcovers
  refine ⟨c, hc, hf, hfirst, temp, hanswers, fun pops aggregates skip limit => ?_⟩
  unfold selectIds
  simp only [htemp, hfirst, bind, Except.bind, pure, Except.pure]
  by_cases hnone : q.options.aggregate = []
  · rw [if_pos hnone]
    exact ⟨_, rfl, rfl, rfl⟩
  · rw [if_neg hnone]
    obtain ⟨vs, hvs⟩ := exists_mapM_ok
      (fun handler h => aggregateRows_ok ⟨o, pops, aggregates⟩ hkeeps temp h)
    rw [hvs]
    exact ⟨_, rfl, rfl, rfl⟩

end Select
end Feat.Database
