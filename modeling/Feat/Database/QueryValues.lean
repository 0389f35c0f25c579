import Feat.Database.QueryOrder
import Feat.Lib.Totals

/- The values a query hands to its aggregations and sets on its documents
   (`feat.database.query`: `ParsedIndex`, `value_iterator`, `select`,
   `include_values`, `values`).

   The values of a field are read from the first response for the field. Only
   where no condition of the query mentions the field it is one for the full
   range; else it is the response for one of these conditions, whichever the
   dictionary yields first. It has the values of all matching documents exactly
   when every matching document with a value meets every condition on the field
   (`result_covered_iff`). Conditions under AND are harmless
   (`harmless_of_and`); under OR they lose values: `or_loses_values`. -/
namespace Feat.Database
open Hash Fallible

/-! ## The source -/

section Source
variable {Value : Type} [DecidableEq Value]

/-- `ParsedIndex` of a controller that keeps the values. -/
def ParsedIndex.kept (entries : List (String × Value)) : ParsedIndex Value :=
  ⟨entries.map Prod.fst, some (Dict.ofList entries)⟩

/-- `get_value`. There are no values where the controller does not keep them, and no index at
all is asked for them where there is no response. -/
def getValue (index : Option (ParsedIndex Value)) (id : String) :
    Except (QueryError Value) (Option Value) :=
  match index.bind ParsedIndex.values with
  | none => .error .attributeError
  | some values => .ok (values.lookup id)

/-- What `value_iterator` yields to the handlers of a field. -/
def handlerGiven (o : Orders Value) (responses : Responses Value) (rows : List String)
    (field : String) : Except (QueryError Value) (List Value) :=
  match (firstResponse o.responses responses field).bind ParsedIndex.values with
  | none => .error .attributeError
  | some values => .ok ((o.aggregates.arrange rows).filterMap values.lookup)

/-- A document with the attributes that are set on it. -/
structure SelectedDoc (Value : Type) where
  docId : String
  attrs : Dict String (Option Value)

/-- `bulk_get`: the documents that are stored. -/
def bulkGet (stored : String → Option (Dict String (Option Value))) (docIds : List String) :
    List (SelectedDoc Value) :=
  docIds.filterMap fun docId => (stored docId).map fun attrs => ⟨docId, attrs⟩

/-- `include_values`. -/
def includeValues (o : HashOrder (Condition Value)) (names : HashOrder String)
    (docs : List (SelectedDoc Value)) (responses : Responses Value) (q : Query Value) :
    Except (QueryError Value) (List (SelectedDoc Value)) :=
  let lookup := Dict.ofList (q.options.includeValue.map fun field =>
    (field, firstResponse o responses field))
  docs.mapM fun doc => do
    let attrs ← Dict.collect names (fun _ cacheEntry => (getValue cacheEntry doc.docId).map some)
      lookup doc.attrs
    return { doc with attrs }

/-- `Result`, with documents. -/
structure Selection (Value : Type) where
  docs : List (SelectedDoc Value)
  totalCount : Nat
  aggregations : Option (List Value)

/-- `select`. -/
def select (o : Orders Value) (names : HashOrder String) (q : Query Value)
    (answer : Condition Value → ParsedIndex Value)
    (stored : String → Option (Dict String (Option Value))) (skip : Nat) (limit : Option Nat) :
    Except (QueryError Value) (Selection Value) := do
  let res ← selectIds o q answer skip limit
  let temp := bulkGet stored res.rows
  let docs ← if q.options.includeValue = [] then .ok temp
    else includeValues o.responses names temp (q.fetch answer) q
  return ⟨docs, res.totalCount, res.aggregations⟩

/-- How `values` fails. -/
inductive ValuesError (Value : Type) where
  | query (e : QueryError Value)
  | valueError
  deriving DecidableEq

/-- The query with one more included field. -/
def Query.including (q : Query Value) (field : String) : Query Value :=
  { q with options := { q.options with includeValue := q.options.includeValue ++ [field] } }

/-- `values`, for a field of the query. The set of the values has an order of its own. -/
def values (o : Orders Value) (unordered : HashOrder (Option Value)) (q : Query Value)
    (answer : Condition Value → ParsedIndex Value) (field : String) (unique : Bool) :
    Except (ValuesError Value) (List (Option Value)) :=
  let q := q.including field
  let responses := q.fetch answer
  match q.toPart.calculateResponse responses with
  | .error e => .error (.query e)
  | .ok temp => match firstResponse o.responses responses field with
    | none => .error (.query .attributeError)
    | some index => match index.values with
      | none => .error .valueError
      | some values =>
        let resp := (o.pops.arrange temp).map values.lookup
        .ok (if unique then unordered.arrange resp.dedup else resp)

/-- A handler is called with what the iterator yields. -/
theorem aggregateRows_given (o : Orders Value) (responses : Responses Value) (rows : List String)
    (handler : (List Value → Value) × String) :
    aggregateRows o responses rows handler =
      (handlerGiven o responses rows handler.2).map handler.1 := by
  unfold aggregateRows handlerGiven
  cases (firstResponse o.responses responses handler.2).bind ParsedIndex.values <;> rfl

end Source

/-! ## What is promised, and when -/

section Covering
variable {Value : Type} [LinearOrder Value]

/-- The fields a query wants values of. -/
def Query.wanted (q : Query Value) : List String :=
  q.options.includeValue ++ q.options.aggregate.map Prod.snd

/-- The answers on the wanted fields keep the values: they pair each document that meets the
condition with its value. -/
def Keeping (value : FieldValues Value) (q : Query Value)
    (answer : Condition Value → ParsedIndex Value) : Prop :=
  ∀ c ∈ q.getBasicQueries, c.field ∈ q.wanted → ∃ entries, answer c = .kept entries ∧
    ∀ id v, (id, v) ∈ entries ↔ value c.field id = some v ∧ c.test.Holds v

/-- The list has the values of all matching documents that have one. -/
def AllValues (value : FieldValues Value) (q : Query Value)
    (answer : Condition Value → ParsedIndex Value) (field : String) (given : List Value) : Prop :=
  ∃ ids : List String, ids.Nodup ∧ (∀ id, id ∈ ids ↔ q.Matches answer id) ∧
    given.Perm (ids.filterMap (value field))

/-- A selection succeeds, each handler is given the values of all matching documents, and every
document has the values to include. -/
def CoversResult (value : FieldValues Value) (q : Query Value)
    (answer : Condition Value → ParsedIndex Value) (o : Orders Value) (names : HashOrder String)
    (stored : String → Option (Dict String (Option Value))) (skip : Nat) (limit : Option Nat) :
    Prop :=
  ∃ temp s, ∃ given : String → List Value,
    q.toPart.calculateResponse (q.fetch answer) = .ok temp ∧
    select o names q answer stored skip limit = .ok s ∧
    (∀ handler ∈ q.options.aggregate,
      handlerGiven o (q.fetch answer) temp handler.2 = .ok (given handler.2) ∧
      AllValues value q answer handler.2 (given handler.2)) ∧
    (q.options.aggregate ≠ [] → s.aggregations =
      some (q.options.aggregate.map fun handler => handler.1 (given handler.2))) ∧
    ∀ doc ∈ s.docs, ∀ field ∈ q.options.includeValue,
      doc.attrs.lookup field = some (value field doc.docId)

/-- Every matching document that has a value for a wanted field meets every condition on the
field. -/
def ConditionsHarmless (value : FieldValues Value) (q : Query Value)
    (answer : Condition Value → ParsedIndex Value) : Prop :=
  ∀ c ∈ q.getBasicQueries, c.field ∈ q.wanted → ∀ id v, q.Matches answer id →
    value c.field id = some v → c.test.Holds v

end Covering
/-! ## The index that is picked -/

section Picked
variable {Value : Type} [LinearOrder Value] {value : FieldValues Value} {q : Query Value}
  {answer : Condition Value → ParsedIndex Value}

theorem wanted_fetched {field : String} (h : field ∈ q.wanted) :
    ∃ c ∈ q.getBasicQueries, c.field = field := by
  refine field_fetched ?_
  rw [List.cons_append]
  exact List.mem_cons_of_mem _ h

omit [LinearOrder Value] in
/-- Pairs of ids and values as a table. -/
theorem lookup_kept {entries : List (String × Value)} {f : String → Option Value}
    {P : Value → Prop} (h : ∀ id v, (id, v) ∈ entries ↔ f id = some v ∧ P v) (id : String)
    (v : Value) : (Dict.ofList entries).lookup id = some v ↔ f id = some v ∧ P v := by
  constructor
  · intro hlookup
    exact (h id v).mp (Dict.mem_of_lookup_ofList hlookup)
  · intro hv
    obtain ⟨w, hw⟩ := Dict.lookup_ofList_of_mem ((h id v).mpr hv)
    have hsame := ((h id w).mp (Dict.mem_of_lookup_ofList hw)).1
    rw [hv.1] at hsame
    rw [hw, Option.some.inj hsame]

/-- What comes of the index of the condition that is picked for a wanted field: it has the values
that meet the condition. -/
theorem picked_spec (hkeeping : Keeping value q answer) (o : Orders Value) {c : Condition Value}
    (hc : c ∈ q.getBasicQueries) (hwanted : c.field ∈ q.wanted)
    (hpicked : firstResponse o.responses (q.fetch answer) c.field = some (answer c)) :
    ∃ table : String → Option Value,
      (∀ id v, table id = some v ↔ value c.field id = some v ∧ c.test.Holds v) ∧
      (∀ rows, handlerGiven o (q.fetch answer) rows c.field =
        .ok ((o.aggregates.arrange rows).filterMap table)) ∧
      ∀ id, getValue (firstResponse o.responses (q.fetch answer) c.field) id = .ok (table id) := by
  obtain ⟨entries, hanswer, hentries⟩ := hkeeping c hc hwanted
  refine ⟨(Dict.ofList entries).lookup, lookup_kept hentries, ?_, ?_⟩
  · intro rows
    rw [handlerGiven, hpicked, hanswer]
    rfl
  · intro id
    rw [getValue, hpicked, hanswer]
    rfl

/-- One of the conditions on a wanted field is picked. -/
theorem exists_picked (o : HashOrder (Condition Value)) {field : String} (h : field ∈ q.wanted) :
    ∃ c ∈ q.getBasicQueries, c.field = field ∧ c.field ∈ q.wanted ∧
      firstResponse o (q.fetch answer) c.field = some (answer c) := by
  obtain ⟨c, hc, rfl, hfirst⟩ : ∃ c ∈ q.getBasicQueries, c.field = field ∧
      firstResponse o (q.fetch answer) field = some (answer c) :=
    firstResponse_of_mem o (wanted_fetched h)
  exact ⟨c, hc, rfl, h, hfirst⟩

/-- Any of them can be the first. -/
theorem firstResponse_front {c : Condition Value} (hc : c ∈ q.getBasicQueries) :
    firstResponse (.front c) (q.fetch answer) c.field = some (answer c) := by
  have hlookup := fetch_lookup q answer hc
  have hkey : c ∈ (q.fetch answer).keys := by
    rw [← AList.mem_keys, ← AList.lookup_isSome, hlookup]
    rfl
  have hitems : Dict.items (.front c) (q.fetch answer) =
      (c, answer c) :: (((q.fetch answer).keys.erase c).filterMap fun k =>
        ((q.fetch answer).lookup k).map fun v => (k, v)) := by
    rw [Dict.items, HashOrder.front_arrange hkey, List.filterMap_cons, hlookup]
    rfl
  rw [firstResponse, hitems, List.find?_cons_of_pos (by simp)]
  rfl

/-- Values looked up in a part of a table: where as many are found, the same are found. -/
theorem same_of_length {f g : String → Option Value} {l : List String}
    (hpart : ∀ id v, f id = some v → g id = some v)
    (hlength : (l.filterMap f).length = (l.filterMap g).length) : ∀ id ∈ l, f id = g id := by
  have hle : ∀ l : List String, (l.filterMap f).length ≤ (l.filterMap g).length := by
    intro l
    induction l with
    | nil => exact Nat.le_refl _
    | cons x l ih =>
      cases hf : f x with
      | none =>
        rw [List.filterMap_cons_none hf]
        cases hg : g x with
        | none => rwa [List.filterMap_cons_none hg]
        | some v =>
          rw [List.filterMap_cons_some hg]
          exact Nat.le_succ_of_le ih
      | some v =>
        rw [List.filterMap_cons_some hf, List.filterMap_cons_some (hpart x v hf)]
        exact Nat.succ_le_succ ih
  induction l with
  | nil => simp
  | cons x l ih =>
    cases hf : f x with
    | none =>
      cases hg : g x with
      | none =>
        rw [List.filterMap_cons_none hf, List.filterMap_cons_none hg] at hlength
        simpa [hf, hg] using ih hlength
      | some v =>
        -- one value is missing
        rw [List.filterMap_cons_none hf, List.filterMap_cons_some hg, List.length_cons] at hlength
        have := hle l
        omega
    | some v =>
      have hg := hpart x v hf
      rw [List.filterMap_cons_some hf, List.filterMap_cons_some hg, List.length_cons,
        List.length_cons] at hlength
      simpa [hf, hg] using ih (Nat.succ.inj hlength)

end Picked

/-! ## What a selection returns -/

section Selecting
variable {Value : Type} [LinearOrder Value] {value : FieldValues Value} {q : Query Value}
  {answer : Condition Value → ParsedIndex Value}

/-- A slice has only the rows that it is cut from. -/
theorem mem_getSortedSlice {o : HashOrder String} {skip stop seen : Nat} {index rows : List String}
    {id : String} (h : id ∈ getSortedSlice o skip stop index rows seen) : id ∈ rows := by
  rw [getSortedSlice_eq, List.mem_append] at h
  rw [← (indexed_perm index rows).mem_iff, List.mem_append]
  rcases h with h | h
  · exact Or.inl (List.mem_of_mem_take (List.mem_of_mem_drop h))
  · exact Or.inr (o.mem_arrange.mp (List.mem_of_mem_take h))

theorem keepsValues_of_keeping (hkeeping : Keeping value q answer) : q.KeepsValues answer := by
  intro c hc hfield hnone
  obtain ⟨entries, hanswer, _⟩ := hkeeping c hc (List.mem_append_right _ hfield)
  rw [hanswer] at hnone
  cases hnone

omit [LinearOrder Value] in
theorem mem_bulkGet {stored : String → Option (Dict String (Option Value))} {docIds : List String}
    {doc : SelectedDoc Value} : doc ∈ bulkGet stored docIds ↔
      doc.docId ∈ docIds ∧ stored doc.docId = some doc.attrs := by
  simp only [bulkGet, List.mem_filterMap, Option.map_eq_some_iff]
  constructor
  · rintro ⟨id, hid, attrs, hattrs, rfl⟩
    exact ⟨hid, hattrs⟩
  · rintro ⟨hid, hattrs⟩
    exact ⟨doc.docId, hid, doc.attrs, hattrs, rfl⟩

/-- The documents get what the picked indexes have for them. -/
theorem includeValues_spec (hkeeping : Keeping value q answer) (o : Orders Value)
    (names : HashOrder String) (docs : List (SelectedDoc Value)) :
    ∃ docs', includeValues o.responses names docs (q.fetch answer) q = .ok docs' ∧
      (∀ doc ∈ docs, ∃ doc' ∈ docs', doc'.docId = doc.docId) ∧
      ∀ doc' ∈ docs', ∃ doc ∈ docs, doc'.docId = doc.docId ∧
        ∀ field ∈ q.options.includeValue, ∃ x,
          getValue (firstResponse o.responses (q.fetch answer) field) doc.docId = .ok x ∧
            doc'.attrs.lookup field = some x := by
  have hvalue : ∀ field ∈ q.options.includeValue, ∀ id, ∃ x,
      getValue (firstResponse o.responses (q.fetch answer) field) id = .ok x := by
    intro field hfield id
    obtain ⟨c, hc, rfl, hwanted, hpicked⟩ : ∃ c ∈ q.getBasicQueries, c.field = field ∧
        c.field ∈ q.wanted ∧ firstResponse o.responses (q.fetch answer) c.field = some (answer c) :=
      exists_picked o.responses (List.mem_append_left _ hfield)
    obtain ⟨table, _, _, hget⟩ := picked_spec hkeeping o hc hwanted hpicked
    exact ⟨_, hget id⟩
  have hok : ∀ doc ∈ docs, ∃ doc' : SelectedDoc Value, (do
      let attrs ← Dict.collect names (fun _ cacheEntry => (getValue cacheEntry doc.docId).map some)
        (Dict.ofList (q.options.includeValue.map fun field =>
          (field, firstResponse o.responses (q.fetch answer) field))) doc.attrs
      return { doc with attrs } : Except (QueryError Value) (SelectedDoc Value)) = .ok doc' := by
    intro doc _
    have hattrs : ∃ attrs, Dict.collect names
        (fun _ cacheEntry => (getValue cacheEntry doc.docId).map some)
        (Dict.ofList (q.options.includeValue.map fun field =>
          (field, firstResponse o.responses (q.fetch answer) field))) doc.attrs = .ok attrs := by
      rw [Dict.collect_isOk_iff]
      intro field entry hentry
      obtain ⟨field', hfield', heq⟩ := List.mem_map.mp (Dict.mem_of_lookup_ofList hentry)
      cases heq
      obtain ⟨x, hx⟩ := hvalue field hfield' doc.docId
      exact ⟨some x, by rw [hx]; rfl⟩
    obtain ⟨attrs, hattrs⟩ := hattrs
    exact ⟨_, by rw [hattrs]; rfl⟩
  obtain ⟨docs', hdocs'⟩ := exists_mapM_ok hok
  refine ⟨docs', hdocs', ?_, ?_⟩
  · intro doc hdoc
    obtain ⟨doc', hdoc'⟩ := hok doc hdoc
    refine ⟨doc', (mem_mapM hdocs' doc').mpr ⟨doc, hdoc, hdoc'⟩, ?_⟩
    obtain ⟨attrs, _, heq⟩ := ok_of_bind hdoc'
    cases heq
    rfl
  · intro doc' hdoc'
    obtain ⟨doc, hdoc, heq⟩ := (mem_mapM hdocs' doc').mp hdoc'
    obtain ⟨attrs, hattrs, heq⟩ := ok_of_bind heq
    cases heq
    refine ⟨doc, hdoc, rfl, ?_⟩
    intro field hfield
    have hlookup := Dict.lookup_ofList_graph
      (fun field => firstResponse o.responses (q.fetch answer) field) hfield
    obtain ⟨x, hx⟩ := hvalue field hfield doc.docId
    refine ⟨x, hx, ?_⟩
    rcases Dict.lookup_collect hattrs field with ⟨hnone, _⟩ | ⟨entry, r, hentry, hr, ht⟩
    · rw [hlookup] at hnone
      cases hnone
    · rw [hlookup] at hentry
      cases hentry
      rw [hx] at hr
      cases hr
      exact ht

/-- A selection succeeds, with documents of the rows. -/
theorem select_spec (hkeeping : Keeping value q answer) (o : Orders Value)
    (names : HashOrder String) (stored : String → Option (Dict String (Option Value))) (skip : Nat)
    (limit : Option Nat) :
    ∃ temp r s, q.toPart.calculateResponse (q.fetch answer) = .ok temp ∧
      Answers temp (fun id => q.Matches answer id) ∧ selectIds o q answer skip limit = .ok r ∧
      (∀ id ∈ r.rows, id ∈ temp) ∧ select o names q answer stored skip limit = .ok s ∧
      (q.options.aggregate ≠ [] → ∃ aggregations, s.aggregations = some aggregations ∧
        q.options.aggregate.mapM (aggregateRows o (q.fetch answer) temp) = .ok aggregations) ∧
      (∀ id ∈ r.rows, (stored id).isSome → ∃ doc ∈ s.docs, doc.docId = id) ∧
      ∀ doc ∈ s.docs, doc.docId ∈ r.rows ∧ ∀ field ∈ q.options.includeValue,
        ∃ x, getValue (firstResponse o.responses (q.fetch answer) field) doc.docId = .ok x ∧
          doc.attrs.lookup field = some x := by
  have hcovers : Covers (q.fetch answer) answer q.toPart.getBasicQueries :=
    fun c hc => fetch_lookup q answer hc
  obtain ⟨temp, htemp, hanswers⟩ := q.toPart.calculateResponse_spec hcovers
  obtain ⟨index, hindex⟩ : ∃ index,
      firstResponse o.responses (q.fetch answer) q.options.sorting.1 = some index := by
    obtain ⟨c, _, _, hfirst⟩ := firstResponse_of_mem o.responses (sorting_fetched q)
    exact ⟨_, hfirst⟩
  obtain ⟨aggregations, hall⟩ := exists_mapM_ok (fun handler h =>
    aggregateRows_ok o (keepsValues_of_keeping hkeeping) temp h)
  -- the rows, whatever else comes with them
  obtain ⟨r, hr, hrows, hgiven⟩ : ∃ r, selectIds o q answer skip limit = .ok r ∧
      (∀ id ∈ r.rows, id ∈ temp) ∧
      (q.options.aggregate ≠ [] → r.aggregations = some aggregations) := by
    unfold selectIds
    simp only [htemp, hindex, hall, bind, Except.bind, pure, Except.pure]
    split
    · rename_i hnone
      exact ⟨_, rfl, fun id h => mem_getSortedSlice h, fun h => absurd hnone h⟩
    · exact ⟨_, rfl, fun id h => mem_getSortedSlice h, fun _ => rfl⟩
  have hstored : ∀ id ∈ r.rows, (stored id).isSome →
      ∃ doc ∈ bulkGet stored r.rows, doc.docId = id := by
    intro id hid hsome
    obtain ⟨attrs, hattrs⟩ := Option.isSome_iff_exists.mp hsome
    exact ⟨⟨id, attrs⟩, mem_bulkGet.mpr ⟨hid, hattrs⟩, rfl⟩
  by_cases hnone : q.options.includeValue = []
  · refine ⟨temp, r, ⟨bulkGet stored r.rows, r.totalCount, r.aggregations⟩, htemp, hanswers, hr,
      hrows, ?_, fun h => ⟨aggregations, hgiven h, hall⟩, hstored, ?_⟩
    · simp only [select, hr, bind, Except.bind, pure, Except.pure]
      rw [if_pos hnone]
    · intro doc hdoc
      rw [hnone]
      exact ⟨(mem_bulkGet.mp hdoc).1, fun field hfield => (nomatch hfield)⟩
  · obtain ⟨docs, hdocs, hsame, hfrom⟩ :=
      includeValues_spec hkeeping o names (bulkGet stored r.rows)
    refine ⟨temp, r, ⟨docs, r.totalCount, r.aggregations⟩, htemp, hanswers, hr, hrows,
      ?_, fun h => ⟨aggregations, hgiven h, hall⟩, ?_, ?_⟩
    · simp only [select, hr, bind, Except.bind, pure, Except.pure]
      rw [if_neg hnone, hdocs]
    · intro id hid hsome
      obtain ⟨doc, hdoc, rfl⟩ := hstored id hid hsome
      exact hsame doc hdoc
    · intro doc' hdoc'
      obtain ⟨doc, hdoc, hid, hattrs⟩ := hfrom doc' hdoc'
      rw [hid]
      exact ⟨(mem_bulkGet.mp hdoc).1, hattrs⟩

omit [LinearOrder Value] in
/-- The values in a table are all there are where they meet its condition. -/
theorem table_full {table f : String → Option Value} {P : Value → Prop} {id : String}
    (htable : ∀ id v, table id = some v ↔ f id = some v ∧ P v) (h : ∀ v, f id = some v → P v) :
    table id = f id := by
  refine Option.ext fun v => ?_
  rw [htable]
  exact and_iff_left_of_imp (h v)

/-- The values given to the aggregations and set on the documents are those of the whole result
exactly when the conditions of the query on these fields are harmless. -/
theorem result_covered_iff (value : FieldValues Value) (q : Query Value)
    (answer : Condition Value → ParsedIndex Value) (hkeeping : Keeping value q answer) :
    (∀ o names stored skip limit, CoversResult value q answer o names stored skip limit) ↔
      ConditionsHarmless value q answer := by
  constructor
  · intro h c hc hwanted id v hmatch hv
    -- the response of this very condition is picked
    let o : Orders Value := ⟨.front c, .stored, .stored⟩
    obtain ⟨table, htable, hgive, hget⟩ :=
      picked_spec hkeeping o hc hwanted (firstResponse_front hc)
    obtain ⟨temp, s, given, htemp, hs, hgiven, _, hdocs⟩ :=
      h o .stored (fun _ => some ∅) 0 none
    obtain ⟨temp', r, s', htemp', hanswers, hr, _, hs', _, hstored, hattrs⟩ :=
      select_spec hkeeping o .stored (fun _ => some ∅) 0 none
    rw [htemp] at htemp'
    cases htemp'
    rw [hs] at hs'
    cases hs'
    have hsame : table id = value c.field id := by
      rcases List.mem_append.mp hwanted with hinclude | haggregate
      · obtain ⟨_, _, r', hr', hrows, _⟩ :=
          selectIds_all o q answer (keepsValues_of_keeping hkeeping)
        rw [hr] at hr'
        cases hr'
        obtain ⟨doc, hdoc, hid⟩ := hstored id ((hrows id).mpr hmatch) rfl
        obtain ⟨x, hx, hattr⟩ := (hattrs doc hdoc).2 c.field hinclude
        rw [hdocs doc hdoc c.field hinclude] at hattr
        rw [hget, hid] at hx
        rw [← hid, Except.ok.inj hx, hid] at *
        exact (Option.some.inj hattr).symm
      · obtain ⟨handler, hhandler, hfield⟩ := List.mem_map.mp haggregate
        obtain ⟨hok, ids, hnodup, hids, hperm⟩ := hgiven handler hhandler
        rw [hfield, hgive] at hok
        rw [hfield, ← Except.ok.inj hok] at hperm
        have hidsPerm : ids.Perm (o.aggregates.arrange temp) := by
          refine ((List.perm_ext_iff_of_nodup hnodup hanswers.nodup).mpr ?_).trans
            (o.aggregates.perm temp).symm
          intro id
          rw [hids, hanswers.mem]
        have hlength := (hperm.trans (hidsPerm.filterMap _)).length_eq
        exact same_of_length (fun id v hsome => ((htable id v).mp hsome).1) hlength id
          (o.aggregates.mem_arrange.mpr ((hanswers.mem id).mpr hmatch))
    exact ((htable id v).mp (hsame.trans hv)).2
  · intro hharmless o names stored skip limit
    obtain ⟨temp, r, s, htemp, hanswers, _, hrows, hs, hagg, _, hattrs⟩ :=
      select_spec hkeeping o names stored skip limit
    have hgiven : ∀ handler ∈ q.options.aggregate,
        handlerGiven o (q.fetch answer) temp handler.2 =
          .ok ((o.aggregates.arrange temp).filterMap (value handler.2)) := by
      intro handler hhandler
      obtain ⟨c, hc, hf, hwanted, hpicked⟩ : ∃ c ∈ q.getBasicQueries, c.field = handler.2 ∧
          c.field ∈ q.wanted ∧
          firstResponse o.responses (q.fetch answer) c.field = some (answer c) :=
        exists_picked o.responses (List.mem_append_right _ (List.mem_map_of_mem hhandler))
      obtain ⟨table, htable, hgive, _⟩ := picked_spec hkeeping o hc hwanted hpicked
      rw [← hf, hgive]
      refine congrArg _ (List.filterMap_congr ?_)
      intro id hid
      have hmatch := (hanswers.mem id).mp (o.aggregates.mem_arrange.mp hid)
      exact table_full htable fun v => hharmless c hc hwanted id v hmatch
    refine ⟨temp, s, fun field => (o.aggregates.arrange temp).filterMap (value field), htemp, hs,
      ?_, ?_, ?_⟩
    · intro handler hhandler
      exact ⟨hgiven handler hhandler, temp, hanswers.nodup, hanswers.mem,
        (o.aggregates.perm temp).filterMap _⟩
    · intro hsome
      obtain ⟨aggregations, heq, hall⟩ := hagg hsome
      have hmap : q.options.aggregate.mapM (aggregateRows o (q.fetch answer) temp) =
          .ok (q.options.aggregate.map fun handler =>
            handler.1 ((o.aggregates.arrange temp).filterMap (value handler.2))) := by
        refine mapM_eq_map ?_
        intro handler hhandler
        rw [aggregateRows_given, hgiven handler hhandler]
        rfl
      rw [heq, ← Except.ok.inj (hall.symm.trans hmap)]
    · intro doc hdoc field hfield
      obtain ⟨hrow, hvalues⟩ := hattrs doc hdoc
      obtain ⟨x, hx, hattr⟩ := hvalues field hfield
      obtain ⟨c, hc, hf, hwanted, hpicked⟩ : ∃ c ∈ q.getBasicQueries, c.field = field ∧
          c.field ∈ q.wanted ∧
          firstResponse o.responses (q.fetch answer) c.field = some (answer c) :=
        exists_picked o.responses (List.mem_append_left _ hfield)
      obtain ⟨table, htable, _, hget⟩ := picked_spec hkeeping o hc hwanted hpicked
      rw [← hf, hget] at hx
      rw [hattr, ← Except.ok.inj hx, ← hf]
      have hmatch := (hanswers.mem doc.docId).mp (hrows _ hrow)
      exact congrArg _ (table_full htable fun v => hharmless c hc hwanted doc.docId v hmatch)

end Selecting

/-! ## Conditions under AND -/

section AndOnly
variable {Value : Type}

mutual
/-- There is no OR in the part. -/
def Part.AllAnd : Part Value → Prop
  | .condition _ => True
  | .query first rest operator _ => operator = .and ∧ first.AllAnd ∧ allAnd rest

def allAnd : List (Part Value) → Prop
  | [] => True
  | part :: rest => part.AllAnd ∧ allAnd rest
end

variable [LinearOrder Value] {answer : Condition Value → ParsedIndex Value}

/-- Only full ranges are added to the conditions of the parts. -/
theorem mem_completeQueries_cases {temp : List (Condition Value)} {options : Options Value}
    {c : Condition Value} (h : c ∈ completeQueries temp options) : c ∈ temp ∨ c.test = .none := by
  have hfold : ∀ (fields : List String) (temp : List (Condition Value)),
      c ∈ fields.foldl includeField temp → c ∈ temp ∨ c.test = .none := by
    intro fields
    induction fields with
    | nil => exact fun _ h => Or.inl h
    | cons field fields ih =>
      intro temp h
      rcases ih _ h with h | h
      · unfold includeField at h
        split at h
        · exact Or.inl h
        · rcases List.mem_append.mp h with h | h
          · exact Or.inl h
          · exact Or.inr (by rw [List.mem_singleton.mp h])
      · exact Or.inr h
  exact hfold _ temp (mem_removeDuplicates.mp h)

mutual
/-- A matching document meets every condition that is not under OR. -/
theorem Part.meets_of_and {id : String} : ∀ part : Part Value, part.AllAnd →
    part.Denotes answer id → ∀ c ∈ part.getBasicQueries,
      id ∈ (answer c).entries ∨ c.test = .none
  | .condition c', _, hdenotes, c, hc => by
    rw [Part.getBasicQueries, List.mem_singleton] at hc
    rw [hc]
    exact Or.inl hdenotes
  | .query first rest operator options, hand, hdenotes, c, hc => by
    obtain ⟨rfl, hfirst, hrest⟩ := hand
    obtain ⟨hone, hothers⟩ := hdenotes
    rw [Part.getBasicQueries] at hc
    rcases mem_completeQueries_cases hc with hc | hc
    · rcases List.mem_append.mp hc with hc | hc
      · exact first.meets_of_and hfirst hone c hc
      · exact meets_of_allAnd rest hrest hothers c hc
    · exact Or.inr hc

theorem meets_of_allAnd {id : String} : ∀ parts : List (Part Value), allAnd parts →
    allDenote answer id parts → ∀ c ∈ basicQueriesOf parts,
      id ∈ (answer c).entries ∨ c.test = .none
  | [], _, _, c, hc => by cases hc
  | part :: rest, hand, hdenotes, c, hc => by
    rw [basicQueriesOf] at hc
    rcases List.mem_append.mp hc with hc | hc
    · exact part.meets_of_and hand.1 hdenotes.1 c hc
    · exact meets_of_allAnd rest hand.2 hdenotes.2 c hc
end

/-- Conditions under AND only are harmless. -/
theorem harmless_of_and {value : FieldValues Value} {q : Query Value}
    (hkeeping : Keeping value q answer) (hand : q.toPart.AllAnd) :
    ConditionsHarmless value q answer := by
  intro c hc hwanted id v hmatch hv
  rcases q.toPart.meets_of_and hand hmatch c hc with hin | hnone
  · obtain ⟨entries, hanswer, hentries⟩ := hkeeping c hc hwanted
    rw [hanswer] at hin
    obtain ⟨⟨id', w⟩, hmem, rfl⟩ := List.mem_map.mp hin
    obtain ⟨hw, hholds⟩ := (hentries id' w).mp hmem
    rw [hv] at hw
    rw [Option.some.inj hw]
    exact hholds
  · rw [hnone]
    trivial

end AndOnly

/-! The documents `a` and `b` again, with 0 and 1 in the field `f`. -/

def keptOfTwo (c : Condition Nat) : ParsedIndex Nat :=
  .kept ([("a", 0), ("b", 1)].filter fun p => c.field = "f" ∧ c.test.Holds p.2)

/-- `f <= 0` and `f >= 0` combined by `operator`, with the values of `f` included and counted. -/
def wantsF (operator : Operator) : Query Nat where
  first := .condition ⟨"f", .le 0⟩
  rest := [.condition ⟨"f", .ge 0⟩]
  operator := operator
  options := ⟨("f", .asc), ["f"], [(List.length, "f")]⟩

theorem keptOfTwo_keeping (operator : Operator) :
    Keeping valuesOfTwo (wantsF operator) keptOfTwo := by
  intro c _ hwanted
  have hfield : c.field = "f" := by
    rw [show (wantsF operator).wanted = ["f", "f"] from rfl] at hwanted
    simpa using hwanted
  refine ⟨_, rfl, fun id v => ?_⟩
  rw [List.mem_filter, decide_eq_true_eq, hfield]
  constructor
  · rintro ⟨hmem, _, hholds⟩
    refine ⟨?_, hholds⟩
    rcases List.mem_cons.mp hmem with heq | hmem
    · cases heq
      rfl
    · cases List.mem_singleton.mp hmem
      rfl
  · rintro ⟨hv, hholds⟩
    refine ⟨?_, rfl, hholds⟩
    unfold valuesOfTwo at hv
    split at hv
    · cases hv
      exact List.mem_cons_self
    · cases hv
      exact List.mem_cons_of_mem _ List.mem_cons_self
    · cases hv

/-- Under AND the document that matches has its value. -/
theorem result_covered_and :
    CoversResult valuesOfTwo (wantsF .and) keptOfTwo storedOrders .stored (fun _ => some ∅) 0 none :=
  (result_covered_iff valuesOfTwo (wantsF .and) keptOfTwo (keptOfTwo_keeping .and)).mpr
    (harmless_of_and (keptOfTwo_keeping .and) ⟨rfl, trivial, trivial, trivial⟩) _ _ _ _ _

/-- Under OR both documents match, and where the response for `f <= 0` is picked, `b` has no value
and the handler is given one value of two. -/
theorem or_loses_values :
    Keeping valuesOfTwo (wantsF .or) keptOfTwo ∧
    ¬ ∀ o names stored skip limit,
      CoversResult valuesOfTwo (wantsF .or) keptOfTwo o names stored skip limit := by
  refine ⟨keptOfTwo_keeping .or, fun h => ?_⟩
  obtain ⟨temp, s, given, _, hs, _, _, hdocs⟩ :=
    h ⟨.front ⟨"f", .le 0⟩, .stored, .stored⟩ .stored (fun _ => some ∅) 0 none
  have hrun : (select ⟨.front ⟨"f", .le 0⟩, .stored, .stored⟩ .stored (wantsF .or) keptOfTwo
      (fun _ => some ∅) 0 none).map (fun s =>
        (s.docs.map fun doc => (doc.docId, doc.attrs.lookup "f"), s.aggregations)) =
      .ok ([("a", some (some 0)), ("b", some none)], some [1]) := by decide +kernel
  rw [hs] at hrun
  have hpairs := (Prod.mk.inj (Except.ok.inj hrun)).1
  have hmem : ("b", some none) ∈ s.docs.map fun doc => (doc.docId, doc.attrs.lookup "f") := by
    rw [hpairs]
    exact List.mem_cons_of_mem _ List.mem_cons_self
  obtain ⟨doc, hdoc, heq⟩ := List.mem_map.mp hmem
  obtain ⟨hid, hattr⟩ := Prod.mk.inj heq
  have hvalue := hdocs doc hdoc "f" List.mem_cons_self
  rw [hattr, hid] at hvalue
  cases hvalue

end Feat.Database
