import Mathlib.Order.Basic
import Mathlib.Order.Lattice
import Feat.Database.Query

/- The order in which a query without a limit returns its documents.

   Answers are consistent when they hold what `IQueryIndex` promises: exactly the
   documents whose value meets the condition, sorted by that value. Then two
   matching documents that meet every condition on the sorting field come in the
   order of their values, and documents that meet all of these conditions come
   before those that meet none, whatever the iteration orders
   (`selectIds_ordered`). A document that meets some of these conditions but not
   others may come anywhere: `or_loses_order`. -/
namespace Feat.Database
open Hash

section Order
variable {Value : Type} [LinearOrder Value]

/-- Whether a value meets the test of a condition. -/
def Test.Holds : Test Value → Value → Prop
  | .equals v, x => x = v
  | .le v, x => x ≤ v
  | .ge v, x => v ≤ x
  | .between lower upper, x => lower ≤ x ∧ x ≤ upper
  | .inside vs, x => x ∈ vs
  | .none, _ => True

/-- The values the fields of the documents are indexed under. -/
abbrev FieldValues (Value : Type) : Type := String → String → Option Value

/-- Each answer holds the documents that meet the condition, sorted by value. -/
structure Consistent (value : FieldValues Value) (answer : Condition Value → ParsedIndex Value) :
    Prop where
  mem : ∀ c id, id ∈ (answer c).entries ↔ ∃ v, value c.field id = some v ∧ c.test.Holds v
  sorted : ∀ c, (answer c).entries.Pairwise (fun a b =>
    ∀ v w, value c.field a = some v → value c.field b = some w → v ≤ w)

/-- `a` comes before `b` in the direction of the sorting. -/
def Direction.Before : Direction → Value → Value → Prop
  | .asc, v, w => v < w
  | .desc, v, w => w < v

/-- The conditions to fetch that are about the sorting field. -/
def Query.SortingCondition (q : Query Value) (c : Condition Value) : Prop :=
  c ∈ q.getBasicQueries ∧ c.field = q.options.sorting.1

/-- The document meets every condition on the sorting field. -/
def Query.InAll (q : Query Value) (answer : Condition Value → ParsedIndex Value) (id : String) :
    Prop :=
  ∀ c, q.SortingCondition c → id ∈ (answer c).entries

/-- The document meets no condition on the sorting field. -/
def Query.InNone (q : Query Value) (answer : Condition Value → ParsedIndex Value) (id : String) :
    Prop :=
  ∀ c, q.SortingCondition c → id ∉ (answer c).entries

/-- `a` stands before `b` in the list. -/
abbrev Precedes (l : List String) (a b : String) : Prop := [a, b].Sublist l

/-- All documents with a value for the sorting field come in the order of their values. -/
def SortedByField (value : FieldValues Value) (q : Query Value) (rows : List String) : Prop :=
  ∀ a ∈ rows, ∀ b ∈ rows, ∀ v w, value q.options.sorting.1 a = some v →
    value q.options.sorting.1 b = some w → q.options.sorting.2.Before v w → Precedes rows a b

/-! ## The rows of the index -/

theorem indexed_sublist (index rows : List String) : (indexed index rows).Sublist index := by
  induction index generalizing rows with
  | nil => exact List.Sublist.refl _
  | cons value index ih =>
    unfold indexed
    split
    · exact (ih _).cons_cons value
    · exact (ih _).cons value

theorem mem_indexed {index rows : List String} {id : String} :
    id ∈ indexed index rows ↔ id ∈ index ∧ id ∈ rows := by
  induction index generalizing rows with
  | nil => simp [indexed]
  | cons value index ih =>
    unfold indexed
    by_cases hid : id = value
    · subst hid
      by_cases hmem : id ∈ rows <;> simp [hmem, ih]
    · split
      · simp [ih, hid, List.mem_erase_of_ne hid]
      · simp [ih, hid]

/-- In a list whose members are pairwise related, one that is not related to another stands
behind it. -/
theorem precedes_of_pairwise {R : String → String → Prop} {l : List String} (h : l.Pairwise R)
    {a b : String} (ha : a ∈ l) (hb : b ∈ l) (hne : a ≠ b) (hnot : ¬ R b a) : Precedes l a b := by
  induction l with
  | nil => cases ha
  | cons x l ih =>
    obtain ⟨hx, hl⟩ := List.pairwise_cons.mp h
    rcases List.mem_cons.mp ha with rfl | ha'
    · rcases List.mem_cons.mp hb with rfl | hb'
      · exact absurd rfl hne
      · exact (List.singleton_sublist.mpr hb').cons_cons a
    · rcases List.mem_cons.mp hb with rfl | hb'
      · exact absurd (hx a ha') hnot
      · exact (ih hl ha' hb').cons x

theorem precedes_append {l l' : List String} {a b : String} (ha : a ∈ l) (hb : b ∈ l') :
    Precedes (l ++ l') a b :=
  (List.singleton_sublist.mpr ha).append (List.singleton_sublist.mpr hb)

/-! ## The result -/

/-- Without a limit: the rows of one sorting condition in the order of its index, then the
others. -/
theorem selectIds_all (o : Orders Value) (q : Query Value)
    (answer : Condition Value → ParsedIndex Value) (hkeeps : q.KeepsValues answer) :
    ∃ c, q.SortingCondition c ∧ ∃ r, selectIds o q answer 0 none = .ok r ∧
      (∀ id, id ∈ r.rows ↔ q.Matches answer id) ∧ r.rows.Nodup ∧
      ∃ first rest, r.rows = first ++ rest ∧
        first.Sublist (q.options.sorting.2.orient (answer c).entries) ∧
        (∀ id ∈ r.rows, id ∈ first ↔ id ∈ (answer c).entries) := by
  obtain ⟨c, hc, hf, _, temp, hanswers, hselect⟩ := selectIds_spec o.responses q answer hkeeps
  obtain ⟨r, hr, _, hrows⟩ := hselect o.pops o.aggregates 0 none
  have hperm := indexed_perm (q.options.sorting.2.orient (answer c).entries) temp
  have hlen := hperm.length_eq
  rw [List.length_append] at hlen
  have horient : ∀ id, id ∈ q.options.sorting.2.orient (answer c).entries ↔
      id ∈ (answer c).entries := by
    intro id
    cases q.options.sorting.2 <;> simp [Direction.orient]
  rw [getSortedSlice_eq] at hrows
  simp only [Option.map_none, Option.getD_none, Nat.sub_zero, List.drop_zero] at hrows
  rw [List.take_of_length_le (by omega), List.take_of_length_le (by simp; omega)] at hrows
  have hrowsPerm : r.rows.Perm temp := by
    rw [hrows]
    exact ((o.pops.perm _).append_left _).trans hperm
  refine ⟨c, ⟨hc, hf⟩, r, hr, ?_, hrowsPerm.nodup_iff.mpr hanswers.nodup, _, _, hrows,
    indexed_sublist _ _, ?_⟩
  · intro id
    rw [hrowsPerm.mem_iff, hanswers.mem]
  · intro id hid
    rw [mem_indexed, horient]
    exact and_iff_left (hrowsPerm.mem_iff.mp hid)

/-- An answer turned in the direction of the sorting is sorted in that direction. -/
theorem orient_pairwise {value : FieldValues Value} {answer : Condition Value → ParsedIndex Value}
    (hcons : Consistent value answer) (direction : Direction) (c : Condition Value) :
    (direction.orient (answer c).entries).Pairwise (fun a b =>
      ∀ v w, value c.field a = some v → value c.field b = some w → ¬ direction.Before w v) := by
  cases direction with
  | asc =>
    refine (hcons.sorted c).imp ?_
    intro a b h v w hv hw
    exact not_lt.mpr (h v w hv hw)
  | desc =>
    rw [Direction.orient, List.pairwise_reverse]
    refine (hcons.sorted c).imp ?_
    intro a b h v w hv hw
    exact not_lt.mpr (h w v hw hv)

/-- Matching documents that meet every condition on the sorting field come in the order of
their values, and before those that meet none. -/
theorem selectIds_ordered (o : Orders Value) (q : Query Value)
    (answer : Condition Value → ParsedIndex Value) (value : FieldValues Value)
    (hcons : Consistent value answer) (hkeeps : q.KeepsValues answer) :
    ∃ r, selectIds o q answer 0 none = .ok r ∧ r.rows.Nodup ∧
      (∀ id, id ∈ r.rows ↔ q.Matches answer id) ∧
      (∀ a ∈ r.rows, ∀ b ∈ r.rows, q.InAll answer a → q.InAll answer b →
        ∀ v w, value q.options.sorting.1 a = some v → value q.options.sorting.1 b = some w →
          q.options.sorting.2.Before v w → Precedes r.rows a b) ∧
      (∀ a ∈ r.rows, ∀ b ∈ r.rows, q.InAll answer a → q.InNone answer b →
        Precedes r.rows a b) := by
  obtain ⟨c, hc, r, hr, hmem, hnodup, first, rest, hrows, hsub, hfirst⟩ :=
    selectIds_all o q answer hkeeps
  refine ⟨r, hr, hnodup, hmem, ?_, ?_⟩
  · intro a ha b hb halla hallb v w hv hw hbefore
    have hne : a ≠ b := by
      intro he
      rw [he, hw] at hv
      cases hv
      cases hd : q.options.sorting.2 <;> rw [hd] at hbefore <;> exact lt_irrefl _ hbefore
    have hsorted := (orient_pairwise hcons q.options.sorting.2 c).sublist hsub
    have hprec : Precedes first a b := by
      refine precedes_of_pairwise hsorted ((hfirst a ha).mpr (halla c hc))
        ((hfirst b hb).mpr (hallb c hc)) hne (fun hnot => ?_)
      exact hnot w v (by rw [hc.2]; exact hw) (by rw [hc.2]; exact hv) hbefore
    rw [hrows]
    exact hprec.trans (List.sublist_append_left first rest)
  · intro a ha b hb halla hnone
    have hb' : b ∈ rest := by
      rw [hrows, List.mem_append] at hb
      rcases hb with hb | hb
      · exact absurd ((hfirst b (by rw [hrows]; exact List.mem_append_left _ hb)).mp hb) (hnone c hc)
      · exact hb
    rw [hrows]
    exact precedes_append ((hfirst a ha).mpr (halla c hc)) hb'

end Order

/-! Documents `a` and `b`, with 0 and 1 in the field `f`. -/

def valuesOfTwo : FieldValues Nat
  | "f", "a" => some 0
  | "f", "b" => some 1
  | _, _ => none

instance (t : Test Nat) (v : Nat) : Decidable (t.Holds v) := by
  cases t <;> unfold Test.Holds <;> infer_instance

def answerOfTwo (c : Condition Nat) : ParsedIndex Nat where
  entries := ["a", "b"].filter (fun id =>
    (valuesOfTwo c.field id).any (fun v => decide (c.test.Holds v)))
  values := none

/-- `f == 0` and `f == 1`, combined by `operator`. -/
def twoConditions (operator : Operator) : Query Nat where
  first := .condition ⟨"f", .equals 0⟩
  rest := [.condition ⟨"f", .equals 1⟩]
  operator := operator
  options := ⟨("f", .asc), [], []⟩

theorem answerOfTwo_consistent : Consistent valuesOfTwo answerOfTwo := by
  have hvalue : ∀ f id v, valuesOfTwo f id = some v → id = "a" ∧ v = 0 ∨ id = "b" ∧ v = 1 := by
    intro f id v h
    unfold valuesOfTwo at h
    split at h
    · cases h; exact Or.inl ⟨rfl, rfl⟩
    · cases h; exact Or.inr ⟨rfl, rfl⟩
    · cases h
  refine ⟨?_, ?_⟩
  · intro c id
    simp only [answerOfTwo, List.mem_filter, Option.any_eq_true, decide_eq_true_eq]
    refine ⟨fun h => h.2, fun ⟨v, hv, hholds⟩ => ⟨?_, v, hv, hholds⟩⟩
    rcases hvalue _ _ _ hv with ⟨rfl, _⟩ | ⟨rfl, _⟩ <;> simp
  · intro c
    have hab : ["a", "b"].Pairwise (fun a b => ∀ v w, valuesOfTwo c.field a = some v →
        valuesOfTwo c.field b = some w → v ≤ w) := by
      refine List.pairwise_pair.mpr ?_
      intro v w hv hw
      rcases hvalue _ _ _ hv with ⟨_, h⟩ | ⟨h, _⟩
      · omega
      · exact absurd h (by decide)
    exact hab.sublist List.filter_sublist

def storedOrders : Orders Nat := ⟨.stored, .stored, .stored⟩

/-- The query for everything that has the field `f`. -/
def fullRange : Query Nat := ⟨.condition ⟨"f", .none⟩, [], .and, ⟨("f", .asc), [], []⟩⟩

theorem fullRange_ordered :
    selectIds storedOrders fullRange answerOfTwo 0 none = .ok ⟨["a", "b"], 2, none⟩ ∧
    Precedes ["a", "b"] "a" "b" := by
  have hkeeps : fullRange.KeepsValues answerOfTwo := by
    intro c _ h
    simp [fullRange] at h
  obtain ⟨r, hr, _, _, hordered, _⟩ := selectIds_ordered storedOrders fullRange answerOfTwo
    valuesOfTwo answerOfTwo_consistent hkeeps
  have hrun : selectIds storedOrders fullRange answerOfTwo 0 none = .ok ⟨["a", "b"], 2, none⟩ := by
    decide
  rw [hrun] at hr
  cases hr
  have hall : ∀ id ∈ ["a", "b"], fullRange.InAll answerOfTwo id := by
    intro id hid c hc
    have hbasic : fullRange.getBasicQueries = [⟨"f", .none⟩] := by decide
    rw [Query.SortingCondition, hbasic, List.mem_singleton] at hc
    rw [hc.1]
    revert hid
    revert id
    decide
  exact ⟨hrun, hordered "a" (by decide) "b" (by decide) (hall _ (by decide)) (hall _ (by decide))
    0 1 rfl rfl Nat.zero_lt_one⟩

/-- Under `or` the answer of one condition comes first, here that with the greater value. -/
theorem or_loses_order :
    Consistent valuesOfTwo answerOfTwo ∧
    selectIds storedOrders (twoConditions .or) answerOfTwo 0 none = .ok ⟨["b", "a"], 2, none⟩ ∧
    ¬ SortedByField valuesOfTwo (twoConditions .or) ["b", "a"] := by
  refine ⟨answerOfTwo_consistent, by decide, fun h => ?_⟩
  exact absurd (h "a" (by decide) "b" (by decide) 0 1 rfl rfl Nat.zero_lt_one) (by decide)

end Feat.Database
