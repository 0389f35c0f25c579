import Mathlib.Data.List.AList

/- Hash tables whose iteration order is not specified. A table is an association
   list without duplicate keys (`Dict`); `HashOrder` is the order in which an
   interpreter happens to hand the keys out, an arbitrary rearrangement that
   depends on nothing but the keys. What is proved for every `HashOrder` does not
   depend on iteration order. Sets are lists without duplicates, and the same
   `HashOrder` gives the order in which their elements come out. -/
namespace Hash

/-- An iteration order: any rearrangement of the keys. -/
structure HashOrder (κ : Type) where
  arrange : List κ → List κ
  perm : ∀ ks, (arrange ks).Perm ks

variable {κ α : Type}

/-- The keys in the order they are stored in. -/
def HashOrder.stored : HashOrder κ := ⟨id, fun _ => .refl _⟩

/-- The keys in the opposite order. -/
def HashOrder.reversed : HashOrder κ := ⟨List.reverse, List.reverse_perm⟩

/-- The order that yields `k` first. -/
def HashOrder.front [DecidableEq κ] (k : κ) : HashOrder κ where
  arrange ks := if k ∈ ks then k :: ks.erase k else ks
  perm ks := by
    split
    · rename_i h
      exact (List.perm_cons_erase h).symm
    · exact .refl _

theorem HashOrder.front_arrange [DecidableEq κ] {k : κ} {ks : List κ} (h : k ∈ ks) :
    (HashOrder.front k).arrange ks = k :: ks.erase k :=
  if_pos h

/-- The order that yields `k` last. -/
def HashOrder.last [DecidableEq κ] (k : κ) : HashOrder κ where
  arrange ks := if k ∈ ks then ks.erase k ++ [k] else ks
  perm ks := by
    split
    · rename_i h
      exact List.perm_append_comm.trans (List.perm_cons_erase h).symm
    · exact .refl _

@[simp] theorem HashOrder.mem_arrange (o : HashOrder κ) {ks : List κ} {k : κ} :
    k ∈ o.arrange ks ↔ k ∈ ks := (o.perm ks).mem_iff

theorem HashOrder.nodup_arrange (o : HashOrder κ) {ks : List κ} :
    (o.arrange ks).Nodup ↔ ks.Nodup := (o.perm ks).nodup_iff

@[simp] theorem HashOrder.length_arrange (o : HashOrder κ) (ks : List κ) :
    (o.arrange ks).length = ks.length := (o.perm ks).length_eq

/-- A hash table. -/
abbrev Dict (κ α : Type) : Type := AList (fun _ : κ => α)

namespace Dict
variable [DecidableEq κ]

/-- The table as a function: tables with the same pairs have the same view. -/
def view (d : Dict κ α) (k : κ) : Option α := d.lookup k

/-- The pairs of the table in iteration order. -/
def items (o : HashOrder κ) (d : Dict κ α) : List (κ × α) :=
  (o.arrange d.keys).filterMap (fun k => (d.lookup k).map (fun v => (k, v)))

/-- The values of the table in iteration order. -/
def values (o : HashOrder κ) (d : Dict κ α) : List α := (items o d).map Prod.snd

/-- The table built from pairs one after the other: a later pair replaces an earlier one. -/
def ofList (ps : List (κ × α)) : Dict κ α := ps.foldl (fun d p => d.insert p.1 p.2) ∅

theorem mem_items {o : HashOrder κ} {d : Dict κ α} {k : κ} {v : α} :
    (k, v) ∈ items o d ↔ d.lookup k = some v := by
  simp only [items, List.mem_filterMap, HashOrder.mem_arrange, Option.map_eq_some_iff]
  constructor
  · rintro ⟨k', _, v', hv, he⟩
    cases he
    exact hv
  · intro hv
    have hk : k ∈ d := AList.lookup_isSome.mp (by rw [hv]; rfl)
    exact ⟨k, AList.mem_keys.mp hk, v, hv, rfl⟩

theorem mem_values {o : HashOrder κ} {d : Dict κ α} {v : α} :
    v ∈ values o d ↔ ∃ k, d.lookup k = some v := by
  simp only [values, List.mem_map, Prod.exists]
  constructor
  · rintro ⟨k, v', hk, rfl⟩
    exact ⟨k, mem_items.mp hk⟩
  · rintro ⟨k, hk⟩
    exact ⟨k, v, mem_items.mpr hk, rfl⟩

theorem values_reversed (d : Dict κ α) : values .reversed d = (values .stored d).reverse := by
  simp only [values, items, HashOrder.reversed, HashOrder.stored, id_eq, List.filterMap_reverse,
    List.map_reverse]

theorem keys_nodup_items (o : HashOrder κ) (d : Dict κ α) :
    ((items o d).map Prod.fst).Nodup := by
  have hsub : ∀ ks : List κ,
      ((ks.filterMap (fun k => (d.lookup k).map (fun v => (k, v)))).map Prod.fst).Sublist ks := by
    intro ks
    induction ks with
    | nil => simp
    | cons k ks ih =>
      cases hk : d.lookup k with
      | none => simpa [List.filterMap_cons, hk] using ih.cons k
      | some v => simpa [List.filterMap_cons, hk] using ih
  exact (o.nodup_arrange.mpr d.nodupKeys).sublist (hsub _)

/-- Two orders give the same pairs, rearranged. -/
theorem items_perm (o o' : HashOrder κ) (d : Dict κ α) : (items o d).Perm (items o' d) :=
  ((o.perm _).trans (o'.perm _).symm).filterMap _

/-- The order that yields a key last yields its pair last. -/
theorem items_last {d : Dict κ α} {k : κ} {v : α} (h : d.lookup k = some v) :
    ∃ ps, items (.last k) d = ps ++ [(k, v)] := by
  have hk : k ∈ d.keys := AList.mem_keys.mp (AList.lookup_isSome.mp (by rw [h]; rfl))
  refine ⟨(d.keys.erase k).filterMap fun k => (d.lookup k).map fun v => (k, v), ?_⟩
  simp [items, HashOrder.last, hk, h]

theorem lookup_foldl_insert {ps : List (κ × α)} {d : Dict κ α} {k : κ} :
    (ps.foldl (fun d p => d.insert p.1 p.2) d).lookup k =
      ((ps.reverse.find? (fun p => p.1 = k)).map Prod.snd).or (d.lookup k) := by
  induction ps generalizing d with
  | nil => simp
  | cons p ps ih =>
    rw [List.foldl_cons, ih, List.reverse_cons, List.find?_append]
    cases hf : ps.reverse.find? (fun p => p.1 = k) with
    | some q => simp
    | none =>
      by_cases hk : p.1 = k
      · simp [hk]
      · simp [hk, AList.lookup_insert_ne (Ne.symm hk)]

/-- The table built from pairs holds, for each key, the last pair with it. -/
theorem lookup_ofList {ps : List (κ × α)} {k : κ} :
    (ofList ps).lookup k = (ps.reverse.find? (fun p => p.1 = k)).map Prod.snd := by
  rw [ofList, lookup_foldl_insert, AList.lookup_empty, Option.or_none]

theorem mem_of_lookup_ofList {ps : List (κ × α)} {k : κ} {v : α}
    (h : (ofList ps).lookup k = some v) : (k, v) ∈ ps := by
  rw [lookup_ofList] at h
  obtain ⟨⟨k', v'⟩, hf, rfl⟩ := Option.map_eq_some_iff.mp h
  have hk : k' = k := by simpa using List.find?_some hf
  subst hk
  exact List.mem_reverse.mp (List.mem_of_find?_eq_some hf)

theorem lookup_ofList_of_mem {ps : List (κ × α)} {k : κ} {v : α} (h : (k, v) ∈ ps) :
    ∃ w, (ofList ps).lookup k = some w := by
  rw [lookup_ofList]
  cases hf : ps.reverse.find? (fun p => p.1 = k) with
  | some p => exact ⟨p.2, rfl⟩
  | none =>
    rw [List.find?_eq_none] at hf
    exact absurd (decide_eq_true rfl) (hf (k, v) (List.mem_reverse.mpr h))

/-- The table built from the pairs of a table has what that one has. -/
theorem lookup_ofList_items (o : HashOrder κ) (d : Dict κ α) (k : κ) :
    (ofList (items o d)).lookup k = d.lookup k := by
  cases hd : d.lookup k with
  | some v =>
    obtain ⟨w, hw⟩ := lookup_ofList_of_mem (mem_items (o := o).mpr hd)
    rw [hw, ← hd, mem_items.mp (mem_of_lookup_ofList hw)]
  | none =>
    cases hw : (ofList (items o d)).lookup k with
    | none => rfl
    | some w => rw [mem_items.mp (mem_of_lookup_ofList hw)] at hd; cases hd

/-- A table with a value computed for each of the keys. -/
theorem lookup_ofList_graph (g : κ → α) {ks : List κ} {k : κ} (h : k ∈ ks) :
    (ofList (ks.map fun k => (k, g k))).lookup k = some (g k) := by
  obtain ⟨w, hw⟩ := lookup_ofList_of_mem (List.mem_map_of_mem (f := fun k => (k, g k)) h)
  obtain ⟨k', _, heq⟩ := List.mem_map.mp (mem_of_lookup_ofList hw)
  cases heq
  exact hw

/-- The table with `f` applied to every value. -/
def map {β : Type} (f : α → β) (d : Dict κ α) : Dict κ β where
  entries := d.entries.map (fun e => ⟨e.1, f e.2⟩)
  nodupKeys := by
    have hkeys : (d.entries.map (fun e => (⟨e.1, f e.2⟩ : Σ _ : κ, β))).keys = d.entries.keys := by
      simp [List.keys, List.map_map, Function.comp_def]
    rw [List.NodupKeys, hkeys]
    exact d.nodupKeys

@[simp] theorem lookup_map {β : Type} (f : α → β) (d : Dict κ α) (k : κ) :
    (map f d).lookup k = (d.lookup k).map f :=
  List.dlookup_map₂ (f := fun _ => f) k

/-! ## Tables of lists -/

/-- `setdefault(k, []).append(v)`. -/
def append (d : Dict κ (List α)) (k : κ) (v : α) : Dict κ (List α) :=
  d.insert k ((d.lookup k).getD [] ++ [v])

/-- The values of the pairs, collected by key in the order they come in. -/
def group (ps : List (κ × α)) : Dict κ (List α) :=
  ps.foldl (fun d p => append d p.1 p.2) ∅

theorem lookup_append (d : Dict κ (List α)) (k k' : κ) (v : α) :
    (append d k v).lookup k' =
      if k' = k then some ((d.lookup k).getD [] ++ [v]) else d.lookup k' := by
  by_cases h : k' = k
  · subst h; simp [append]
  · simp [append, h, AList.lookup_insert_ne h]

theorem lookup_foldl_append {ps : List (κ × α)} {d : Dict κ (List α)} {k : κ} :
    (ps.foldl (fun d p => append d p.1 p.2) d).lookup k =
      if ps.filter (fun p => p.1 = k) = [] then d.lookup k
      else some ((d.lookup k).getD [] ++ (ps.filter (fun p => p.1 = k)).map Prod.snd) := by
  induction ps generalizing d with
  | nil => simp
  | cons p ps ih =>
    rw [List.foldl_cons, ih, lookup_append]
    by_cases hk : p.1 = k
    · subst hk
      by_cases he : ps.filter (fun q => q.1 = p.1) = [] <;> simp [he]
    · rw [List.filter_cons_of_neg (by simpa using hk), if_neg (Ne.symm hk)]

/-- Grouping leaves no empty list, and each list is the values with its key, in order. -/
theorem lookup_group {ps : List (κ × α)} {k : κ} {l : List α} :
    (group ps).lookup k = some l ↔
      l ≠ [] ∧ l = (ps.filter (fun p => p.1 = k)).map Prod.snd := by
  rw [group, lookup_foldl_append, AList.lookup_empty]
  by_cases he : ps.filter (fun p => p.1 = k) = []
  · simp [he]
  · rw [if_neg he]
    simp only [Option.getD_none, List.nil_append, Option.some.injEq]
    constructor
    · rintro rfl
      exact ⟨by simpa using he, rfl⟩
    · rintro ⟨_, rfl⟩
      rfl

theorem mem_of_lookup_group {ps : List (κ × α)} {k : κ} {l : List α}
    (h : (group ps).lookup k = some l) {v : α} : v ∈ l ↔ (k, v) ∈ ps := by
  rw [(lookup_group.mp h).2]
  simp

theorem lookup_group_none {ps : List (κ × α)} {k : κ} :
    (group ps).lookup k = none ↔ ∀ p ∈ ps, p.1 ≠ k := by
  rw [group, lookup_foldl_append, AList.lookup_empty]
  by_cases he : ps.filter (fun p => p.1 = k) = []
  · rw [if_pos he]
    simpa [List.filter_eq_nil_iff] using he
  · rw [if_neg he]
    simpa [List.filter_eq_nil_iff] using he

end Dict
end Hash
