import Mathlib.Data.List.Sort

/- The order in which a list that was sorted by a key comes out. `Before l x y`
   says that `x` comes before `y` in `l`. Sorting puts a smaller key first
   (`le_of_before`) and leaves ties as it found them (`tie_before`), so parts of two
   sorted lists agree when they have the same elements and no two of them tie
   (`eq_of_keys`), and differ when two elements tie and came in one order here and
   in the other there (`ne_of_tie`). -/
namespace StableOrder

variable {α : Type}

/-- `x` comes before `y` in the list. -/
def Before (l : List α) (x y : α) : Prop := [x, y].Sublist l

instance [DecidableEq α] (l : List α) (x y : α) : Decidable (Before l x y) :=
  inferInstanceAs (Decidable ([x, y].Sublist l))

theorem before_cons {l : List α} {a x y : α} :
    Before (a :: l) x y ↔ Before l x y ∨ (x = a ∧ y ∈ l) := by
  unfold Before
  rw [List.cons_sublist_cons']
  simp [List.singleton_sublist]

theorem before_mem {l : List α} {x y : α} (h : Before l x y) : x ∈ l ∧ y ∈ l :=
  ⟨h.subset (by simp), h.subset (by simp)⟩

/-- Of two elements one comes first. -/
theorem before_or {l : List α} {x y : α} (hx : x ∈ l) (hy : y ∈ l) (hne : x ≠ y) :
    Before l x y ∨ Before l y x := by
  induction l with
  | nil => simp at hx
  | cons a l ih =>
    rw [before_cons, before_cons]
    rcases List.mem_cons.mp hx with rfl | hx'
    · exact Or.inl (Or.inr ⟨rfl, (List.mem_cons.mp hy).resolve_left hne.symm⟩)
    · rcases List.mem_cons.mp hy with rfl | hy'
      · exact Or.inr (Or.inr ⟨rfl, hx'⟩)
      · exact (ih hx' hy').imp Or.inl Or.inl

/-- Without repetitions only one comes first. -/
theorem before_asymm {l : List α} {x y : α} (hn : l.Nodup) (h : Before l x y) :
    ¬ Before l y x := by
  induction l with
  | nil => exact fun h' => by simpa using (before_mem h').1
  | cons a l ih =>
    obtain ⟨ha, hn⟩ := List.nodup_cons.mp hn
    rw [before_cons] at h ⊢
    rintro (h' | ⟨rfl, hx⟩)
    · rcases h with h | ⟨rfl, _⟩
      · exact ih hn h h'
      · exact ha (before_mem h').2
    · rcases h with h | ⟨rfl, hy⟩
      · exact ha (before_mem h).2
      · exact ha hy

theorem ne_of_before {l : List α} {x y : α} (hn : l.Nodup) (h : Before l x y) : x ≠ y := by
  rintro rfl
  exact before_asymm hn h h

theorem before_reverse {l : List α} {x y : α} : Before l.reverse x y ↔ Before l y x := by
  unfold Before
  rw [show [x, y] = [y, x].reverse from rfl, List.reverse_sublist]

/-! ## The last element -/

theorem getLast?_orderedInsert {r : α → α → Prop} [DecidableRel r] {l : List α} {a x : α}
    (h : l.getLast? = some x) (ha : r a x) : (l.orderedInsert r a).getLast? = some x := by
  induction l with
  | nil => cases h
  | cons b l ih =>
    rw [List.orderedInsert]
    split
    · rw [List.getLast?_cons_cons]
      exact h
    · next hb =>
      cases l with
      | nil =>
        cases h
        exact absurd ha hb
      | cons c l =>
        rw [List.getLast?_cons_cons] at h
        have hlast := ih h
        rw [List.getLast?_cons, hlast]
        rfl

/-- Sorting leaves an element last that no other comes after. -/
theorem getLast?_insertionSort {r : α → α → Prop} [DecidableRel r] {l : List α} {x : α}
    (h : ∀ y ∈ l, r y x) : ((l ++ [x]).insertionSort r).getLast? = some x := by
  induction l with
  | nil => rfl
  | cons y l ih =>
    obtain ⟨hy, hl⟩ := List.forall_mem_cons.mp h
    exact getLast?_orderedInsert (ih hl) hy

/-! ## Sorted lists -/

section Sorted
variable (key : α → Nat)

/-- The list by key, ties in the order they come in. -/
def byKey (l : List α) : List α := l.insertionSort (fun x y => key x ≤ key y)

variable {key} {l l' : List α} {x y : α}

theorem byKey_perm : (byKey key l).Perm l := List.perm_insertionSort _ l

theorem byKey_pairwise : (byKey key l).Pairwise (fun x y => key x ≤ key y) := by
  have : Std.Total (fun x y : α => key x ≤ key y) := ⟨fun x y => Nat.le_total _ _⟩
  have : IsTrans α (fun x y => key x ≤ key y) := ⟨fun _ _ _ => Nat.le_trans⟩
  exact List.pairwise_insertionSort _ l

theorem le_of_before (hsub : l'.Sublist (byKey key l)) (h : Before l' x y) : key x ≤ key y :=
  List.pairwise_iff_forall_sublist.mp byKey_pairwise (h.trans hsub)

/-- Two elements with one key come out as they come in. -/
theorem tie_before (hn : l.Nodup) (htie : key x = key y) (h : Before (byKey key l) x y) :
    Before l x y := by
  have hsorted : (byKey key l).Nodup := byKey_perm.nodup_iff.mpr hn
  obtain ⟨hx, hy⟩ := before_mem h
  rcases before_or (byKey_perm.mem_iff.mp hx) (byKey_perm.mem_iff.mp hy)
    (ne_of_before hsorted h) with hxy | hyx
  · exact hxy
  · have hkept : Before (byKey key l) y x :=
      List.pair_sublist_insertionSort (r := fun x y => key x ≤ key y) (Nat.le_of_eq htie.symm) hyx
    exact absurd hkept (before_asymm hsorted h)

/-- Parts with the same elements agree when no two elements have one key. -/
theorem eq_of_keys {m m' : List α} (hsub : m.Sublist (byKey key l))
    (hsub' : m'.Sublist (byKey key l')) (hn : m.Nodup) (hn' : m'.Nodup)
    (hmem : ∀ x, x ∈ m ↔ x ∈ m') (hkeys : ∀ x ∈ m, ∀ y ∈ m, key x = key y → x = y) : m = m' := by
  refine List.Perm.eq_of_pairwise ?_ (byKey_pairwise.sublist hsub) (byKey_pairwise.sublist hsub')
    ((List.perm_ext_iff_of_nodup hn hn').mpr hmem)
  intro x y hx hy hxy hyx
  exact hkeys x hx y ((hmem y).mpr hy) (Nat.le_antisymm hxy hyx)

/-- Parts of a list sorted, and of its reverse sorted, in which two elements tie differ. -/
theorem ne_of_tie {m m' : List α} (hn : l.Nodup) (hsub : m.Sublist (byKey key l))
    (hsub' : m'.Sublist (byKey key l.reverse)) (hx : x ∈ m) (hy : y ∈ m) (hne : x ≠ y)
    (htie : key x = key y) : m ≠ m' := by
  rintro rfl
  -- whichever comes first in the part came first in the list and in its reverse
  have hboth : ∀ {a b : α}, key a = key b → ¬ Before m a b := by
    intro a b hab h
    have h₁ : Before l a b := tie_before hn hab (h.trans hsub)
    have h₂ : Before l.reverse a b := tie_before (List.nodup_reverse.mpr hn) hab (h.trans hsub')
    exact before_asymm hn h₁ (before_reverse.mp h₂)
  rcases before_or hx hy hne with h | h
  · exact hboth htie h
  · exact hboth htie.symm h

end Sorted
end StableOrder
