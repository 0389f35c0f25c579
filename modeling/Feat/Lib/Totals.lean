import Mathlib.Algebra.Order.BigOperators.Group.List
import Mathlib.Algebra.Order.Monoid.Canonical.Defs
import Mathlib.Algebra.Order.Group.Multiset
import Feat.Lib.Hash

/- What the values of a table add up to, in any commutative monoid: numbers that
   are counted, or multisets of things that are owned. Inserting and erasing move
   the total by the values concerned (`total_insert`, `total_erase`), and it depends
   on nothing but the lookups (`total_congr`). Where nothing is negative, a table
   that holds less adds up to less (`total_mono`).

   A loop over the pairs of a table that changes no key but the one it is at
   changes each key by itself, whatever the order (`lookup_foldlM_items`). -/
namespace Hash.Dict

variable {κ α M : Type} [DecidableEq κ]

section Totals
variable [AddCommMonoid M] {f : α → M} {d d' : Dict κ α} {k : κ} {v : α}

/-- The sum of what `f` gives for the values. -/
def total (f : α → M) (d : Dict κ α) : M := (d.entries.map fun e => f e.2).sum

omit [DecidableEq κ] in
@[simp] theorem total_empty : total f (∅ : Dict κ α) = 0 := rfl

theorem total_congr (h : ∀ k, d.lookup k = d'.lookup k) : total f d = total f d' := by
  have hperm : d.entries.Perm d'.entries := by
    refine List.lookup_ext d.nodupKeys d'.nodupKeys (fun k v => ?_)
    show v ∈ d.lookup k ↔ v ∈ d'.lookup k
    rw [h k]
  exact (hperm.map _).sum_eq

theorem total_insert (f : α → M) (d : Dict κ α) (k : κ) (v : α) :
    total f (d.insert k v) = f v + total f (d.erase k) := rfl

theorem total_erase (h : d.lookup k = some v) : f v + total f (d.erase k) = total f d := by
  rw [← total_insert]
  apply total_congr
  intro k'
  by_cases hk : k' = k
  · rw [hk, AList.lookup_insert, h]
  · rw [AList.lookup_insert_ne hk]

/-- The sum over the values, in whatever order they come. -/
theorem sum_map_values (o : HashOrder κ) (f : α → M) (d : Dict κ α) :
    ((values o d).map f).sum = total f d := by
  have hself : items HashOrder.stored d = d.entries.map fun e => (e.1, e.2) := by
    show d.keys.filterMap (fun k => (d.lookup k).map (fun v => (k, v))) = _
    show (d.entries.map Sigma.fst).filterMap _ = _
    rw [List.filterMap_map, ← List.filterMap_eq_map]
    refine List.filterMap_congr (fun e he => ?_)
    have hlookup : d.lookup e.1 = some e.2 := AList.mem_lookup_iff.mpr he
    simp [hlookup]
  calc ((values o d).map f).sum
      = ((items HashOrder.stored d).map fun p => f p.2).sum := by
        unfold values
        rw [List.map_map]
        exact ((items_perm o HashOrder.stored d).map _).sum_eq
    _ = total f d := by
        rw [hself, List.map_map]
        rfl

omit [DecidableEq κ] in
theorem sum_filterMap {β : Type} (g : α → Option β) (f : β → M) (l : List α) :
    ((l.filterMap g).map f).sum = (l.map fun a => ((g a).map f).getD 0).sum := by
  induction l with
  | nil => rfl
  | cons a l ih =>
    cases hg : g a with
    | none => simpa [List.filterMap_cons, hg] using ih
    | some b => simp [hg, ih]

variable [PartialOrder M] [IsOrderedAddMonoid M] [CanonicallyOrderedAdd M]

theorem total_mono (h : ∀ k v, d.lookup k = some v → d'.lookup k = some v) :
    total f d ≤ total f d' := by
  have hnodup : d.entries.Nodup := d.nodupKeys.nodup
  have hsub : d.entries ⊆ d'.entries := by
    intro e he
    exact AList.mem_lookup_iff.mp (h e.1 e.2 (AList.mem_lookup_iff.mpr he))
  obtain ⟨l, hperm, hsublist⟩ := List.subperm_of_subset hnodup hsub
  unfold total
  rw [← (hperm.map _).sum_eq]
  exact (hsublist.map _).sum_le_sum (fun _ _ => zero_le)

theorem total_erase_le (f : α → M) (d : Dict κ α) (k : κ) : total f (d.erase k) ≤ total f d := by
  apply total_mono
  intro k' v hlookup
  by_cases hk : k' = k
  · rw [hk, AList.lookup_erase] at hlookup
    cases hlookup
  · rwa [AList.lookup_erase_ne hk] at hlookup

theorem total_insert_le (f : α → M) (d : Dict κ α) (k : κ) (v : α) :
    total f (d.insert k v) ≤ f v + total f d := by
  rw [total_insert]
  exact add_le_add_right (total_erase_le f d k) _

omit [IsOrderedAddMonoid M] in
/-- A value of the table is not more than the total. -/
theorem le_total (f : α → M) (h : d.lookup k = some v) : f v ≤ total f d := by
  rw [← total_erase h]
  exact le_self_add

end Totals

/-! ## Totals of multisets -/

section Multisets
variable {β : Type} {f : α → Multiset β} {d : Dict κ α} {k k' : κ} {v v' : α} {x : β}

theorem mem_total : x ∈ total f d ↔ ∃ k v, d.lookup k = some v ∧ x ∈ f v := by
  have hlist : ∀ l : List α, x ∈ (l.map f).sum ↔ ∃ v ∈ l, x ∈ f v := by
    intro l
    induction l with
    | nil => simp
    | cons v l ih => simp [ih]
  rw [← sum_map_values HashOrder.stored, hlist]
  simp only [mem_values]
  constructor
  · rintro ⟨v, ⟨k, hk⟩, hx⟩
    exact ⟨k, v, hk, hx⟩
  · rintro ⟨k, v, hk, hx⟩
    exact ⟨v, ⟨k, hk⟩, hx⟩

/-- Where nothing is in the total twice, only one key has it. -/
theorem eq_of_nodup_total (h : (total f d).Nodup) (hk : d.lookup k = some v)
    (hk' : d.lookup k' = some v') (hx : x ∈ f v) (hx' : x ∈ f v') : k = k' := by
  by_contra hne
  rw [← total_erase hk, Multiset.nodup_add] at h
  refine Multiset.disjoint_left.mp h.2.2 hx (mem_total.mpr ⟨k', v', ?_, hx'⟩)
  rw [AList.lookup_erase_ne (Ne.symm hne)]
  exact hk'

end Multisets

/-! ## Loops -/

/-- A loop that puts something for every key of the pairs that the table does not have. -/
theorem lookup_foldl_default {β : Type} {o : HashOrder κ} {d : Dict κ β} {f : β → α}
    (t : Dict κ α) (k : κ) :
    ((items o d).foldl (fun t p => if (t.lookup p.1).isSome then t else t.insert p.1 (f p.2))
      t).lookup k = (t.lookup k).or ((d.lookup k).map f) := by
  have hloop : ∀ (l : List (κ × β)) (t : Dict κ α), (l.map Prod.fst).Nodup →
      (∀ b, (k, b) ∈ l → (l.foldl (fun t p => if (t.lookup p.1).isSome then t
        else t.insert p.1 (f p.2)) t).lookup k = (t.lookup k).or (some (f b))) ∧
      (k ∉ l.map Prod.fst → (l.foldl (fun t p => if (t.lookup p.1).isSome then t
        else t.insert p.1 (f p.2)) t).lookup k = t.lookup k) := by
    intro l
    induction l with
    | nil =>
      intro t _
      simp
    | cons p l ih =>
      intro t hnodup
      obtain ⟨hp, hnodup⟩ := List.nodup_cons.mp hnodup
      rw [List.foldl_cons]
      obtain ⟨hin, hout⟩ := ih (if (t.lookup p.1).isSome then t else t.insert p.1 (f p.2)) hnodup
      have hother : k ≠ p.1 →
          (if (t.lookup p.1).isSome then t else t.insert p.1 (f p.2)).lookup k = t.lookup k := by
        intro hk
        split
        · rfl
        · exact AList.lookup_insert_ne hk
      constructor
      · intro b hb
        rcases List.mem_cons.mp hb with heq | hb
        · subst heq
          rw [hout hp]
          cases hlookup : t.lookup k with
          | none => simp
          | some v => simp [hlookup]
        · have hk : k ≠ p.1 := fun heq => hp (heq ▸ List.mem_map_of_mem hb)
          rw [hin b hb, hother hk]
      · intro hk
        rw [List.map_cons, List.mem_cons, not_or] at hk
        rw [hout hk.2, hother hk.1]
  obtain ⟨hin, hout⟩ := hloop (items o d) t (keys_nodup_items o d)
  cases hlookup : d.lookup k with
  | some b => exact hin b (mem_items.mpr hlookup)
  | none =>
    rw [Option.map_none, Option.or_none]
    apply hout
    intro hk
    obtain ⟨⟨k', b⟩, hb, rfl⟩ := List.mem_map.mp hk
    rw [mem_items.mp hb] at hlookup
    cases hlookup

/-- A loop over the pairs, the body of which reads and writes the key it is at. -/
theorem lookup_foldlM_items {ε : Type} {o : HashOrder κ} {d t : Dict κ α}
    {body : Dict κ α → κ × α → Except ε (Dict κ α)} {g : κ → α → Option α}
    (hbody : ∀ t p t', t.lookup p.1 = some p.2 → body t p = .ok t' →
      ∀ k, t'.lookup k = if k = p.1 then g p.1 p.2 else t.lookup k)
    (h : (items o d).foldlM body d = .ok t) (k : κ) :
    t.lookup k = (d.lookup k).bind (g k) := by
  -- along the list: keys behind are done, keys ahead are as they were
  have hloop : ∀ (l : List (κ × α)) (t₀ t : Dict κ α), (l.map Prod.fst).Nodup →
      (∀ p ∈ l, t₀.lookup p.1 = some p.2) → l.foldlM body t₀ = .ok t →
      ∀ k, t.lookup k = if k ∈ l.map Prod.fst then (t₀.lookup k).bind (g k) else t₀.lookup k := by
    intro l
    induction l with
    | nil =>
      intro t₀ t _ _ hfold k
      cases hfold
      simp
    | cons p l ih =>
      intro t₀ t hnodup hahead hfold k
      rw [List.foldlM_cons] at hfold
      obtain ⟨hp, hnodup⟩ := List.nodup_cons.mp hnodup
      have hlookup := hahead p List.mem_cons_self
      cases hone : body t₀ p with
      | error e =>
        rw [hone] at hfold
        cases hfold
      | ok t₁ =>
        rw [hone] at hfold
        have hone := hbody t₀ p t₁ hlookup hone
        have hne : ∀ q ∈ l, q.1 ≠ p.1 := fun q hq heq =>
          hp (heq ▸ List.mem_map_of_mem hq)
        have hrest := ih t₁ t hnodup (fun q hq => by
          rw [hone, if_neg (hne q hq)]
          exact hahead q (List.mem_cons_of_mem _ hq)) hfold k
        rw [hrest, hone]
        by_cases hk : k = p.1
        · subst hk
          rw [if_neg hp, if_pos rfl, if_pos (by simp), hlookup]
          rfl
        · have hin : k ∈ (p :: l).map Prod.fst ↔ k ∈ l.map Prod.fst := by
            rw [List.map_cons, List.mem_cons, or_iff_right hk]
          rw [if_neg hk]
          exact (if_congr hin rfl rfl).symm
  have hall := hloop (items o d) d t (keys_nodup_items o d)
    (fun p hp => mem_items.mp hp) h k
  rw [hall]
  split
  · rfl
  · rename_i hk
    cases hlookup : d.lookup k with
    | none => rfl
    | some v => exact (hk (List.mem_map_of_mem (mem_items.mpr hlookup))).elim

/-- A loop that puts something into another table for every key, or leaves it. -/
def collect {β ε : Type} (o : HashOrder κ) (f : κ → α → Except ε (Option β)) (d : Dict κ α)
    (t₀ : Dict κ β) : Except ε (Dict κ β) :=
  (items o d).foldlM (fun t p => do
    return match ← f p.1 p.2 with | some b => t.insert p.1 b | none => t) t₀

theorem lookup_collect {β ε : Type} {o : HashOrder κ} {f : κ → α → Except ε (Option β)}
    {d : Dict κ α} {t₀ t : Dict κ β} (h : collect o f d t₀ = .ok t) (k : κ) :
    (d.lookup k = none ∧ t.lookup k = t₀.lookup k) ∨
      ∃ a r, d.lookup k = some a ∧ f k a = .ok r ∧ t.lookup k = r.or (t₀.lookup k) := by
  have hloop : ∀ (l : List (κ × α)) (t₀ t : Dict κ β), (l.map Prod.fst).Nodup →
      l.foldlM (fun (t : Dict κ β) p => do
        return match ← f p.1 p.2 with | some b => t.insert p.1 b | none => t) t₀ = .ok t →
      (k ∉ l.map Prod.fst ∧ t.lookup k = t₀.lookup k) ∨
        ∃ a r, (k, a) ∈ l ∧ f k a = .ok r ∧ t.lookup k = r.or (t₀.lookup k) := by
    intro l
    induction l with
    | nil =>
      intro t₀ t _ hfold
      cases hfold
      exact Or.inl ⟨by simp, rfl⟩
    | cons p l ih =>
      intro t₀ t hnodup hfold
      rw [List.foldlM_cons] at hfold
      obtain ⟨hp, hnodup⟩ := List.nodup_cons.mp hnodup
      cases hone : f p.1 p.2 with
      | error e =>
        rw [hone] at hfold
        cases hfold
      | ok r =>
        rw [hone] at hfold
        -- what the first pair does to the table
        have hfirst : (match r with | some b => t₀.insert p.1 b | none => t₀).lookup k =
            if k = p.1 then r.or (t₀.lookup k) else t₀.lookup k := by
          cases r with
          | none => simp
          | some b =>
            by_cases hkp : k = p.1
            · subst hkp
              simp
            · rw [if_neg hkp]
              exact AList.lookup_insert_ne hkp
        rcases ih _ t hnodup hfold with ⟨hk, hrest⟩ | ⟨a, r', ha, hr', ht⟩
        · rw [hfirst] at hrest
          split at hrest
          · rename_i hkp
            subst hkp
            exact Or.inr ⟨p.2, r, by simp, hone, hrest⟩
          · rename_i hkp
            refine Or.inl ⟨?_, hrest⟩
            rw [List.map_cons, List.mem_cons, not_or]
            exact ⟨hkp, hk⟩
        · have hkp : k ≠ p.1 := fun heq => hp (heq ▸ List.mem_map_of_mem ha)
          rw [hfirst, if_neg hkp] at ht
          exact Or.inr ⟨a, r', List.mem_cons_of_mem _ ha, hr', ht⟩
  rcases hloop _ _ _ (keys_nodup_items o d) h with ⟨hk, ht⟩ | ⟨a, r, ha, hr, ht⟩
  · refine Or.inl ⟨?_, ht⟩
    cases hlookup : d.lookup k with
    | none => rfl
    | some a => exact (hk (List.mem_map_of_mem (mem_items.mpr hlookup))).elim
  · exact Or.inr ⟨a, r, mem_items.mp ha, hr, ht⟩

/-- A loop that puts something for every key into another table. -/
theorem lookup_foldlM_insert {β ε : Type} {o : HashOrder κ} {d : Dict κ α} {t : Dict κ β}
    {f : κ → α → Except ε β}
    (h : (items o d).foldlM (fun (t : Dict κ β) p => do return t.insert p.1 (← f p.1 p.2)) ∅ = .ok t)
    (k : κ) :
    (d.lookup k = none ∧ t.lookup k = none) ∨
      ∃ a b, d.lookup k = some a ∧ f k a = .ok b ∧ t.lookup k = some b := by
  have hsome : collect o (fun k a => (f k a).map some) d ∅ = .ok t := by
    rw [← h]
    unfold collect
    congr 1
    funext t p
    show ((f p.1 p.2).map some).bind _ = (f p.1 p.2).bind _
    cases f p.1 p.2 <;> rfl
  rcases lookup_collect hsome k with
    ⟨hk, ht⟩ | ⟨a, r, ha, hr, ht⟩
  · exact Or.inl ⟨hk, ht.trans (AList.lookup_empty k)⟩
  · right
    cases hf : f k a with
    | error e =>
      rw [hf] at hr
      cases hr
    | ok b =>
      rw [hf] at hr
      cases hr
      exact ⟨a, b, ha, hf, ht⟩

/-- A loop over the pairs gets to its end if and only if its body succeeds at every pair. -/
theorem foldlM_items_isOk_iff {σ ε : Type} {o : HashOrder κ} {d : Dict κ α} {s : σ}
    {body : σ → κ × α → Except ε σ} (ok : κ → α → Prop)
    (hok : ∀ t p, (∃ t', body t p = .ok t') ↔ ok p.1 p.2) :
    (∃ t, (items o d).foldlM body s = .ok t) ↔ ∀ k v, d.lookup k = some v → ok k v := by
  have hloop : ∀ (l : List (κ × α)) (t₀ : σ),
      (∃ t, l.foldlM body t₀ = .ok t) ↔ ∀ p ∈ l, ok p.1 p.2 := by
    intro l
    induction l with
    | nil =>
      intro t₀
      simp [pure, Except.pure]
    | cons p l ih =>
      intro t₀
      rw [List.foldlM_cons, List.forall_mem_cons, ← hok t₀ p]
      cases hone : body t₀ p with
      | error e => simp [bind, Except.bind]
      | ok t₁ => simpa [bind, Except.bind] using ih t₁
  rw [hloop]
  constructor
  · intro h k v hlookup
    exact h (k, v) (mem_items.mpr hlookup)
  · rintro h ⟨k, v⟩ hp
    exact h k v (mem_items.mp hp)

theorem collect_isOk_iff {β ε : Type} {o : HashOrder κ} {f : κ → α → Except ε (Option β)}
    {d : Dict κ α} {t₀ : Dict κ β} :
    (∃ t, collect o f d t₀ = .ok t) ↔ ∀ k a, d.lookup k = some a → ∃ r, f k a = .ok r := by
  unfold collect
  rw [foldlM_items_isOk_iff (fun k a => ∃ r, f k a = .ok r)]
  intro t p
  cases f p.1 p.2 <;> simp [bind, Except.bind, pure, Except.pure]

end Hash.Dict
