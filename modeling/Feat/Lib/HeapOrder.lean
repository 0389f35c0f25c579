import Feat.Lib.Heap

/- Binary heaps in an array whose comparison respects a preorder: it never says that an item is
   less than one that comes before it, nor that it is not less than one that comes after it. What
   the operations keep is that no item comes before its parent (`Ordered`), so that the first
   item of a heap comes before all others (`Ordered.first`). The items in question are those of
   a class `P`. -/
namespace Heap

variable {α : Type}

/-- The comparison of items respects the preorder. -/
structure Respects (lt : α → α → Bool) (le : α → α → Prop) (P : α → Prop) : Prop where
  trans : ∀ {a b c}, le a b → le b c → le a c
  below : ∀ {a b}, P a → P b → lt a b = true → le a b
  above : ∀ {a b}, P a → P b → lt a b = false → le b a

theorem Respects.refl {lt : α → α → Bool} {le : α → α → Prop} {P : α → Prop}
    (h : Respects lt le P) {a : α} (ha : P a) : le a a := by
  cases hlt : lt a a with
  | true => exact h.below ha ha hlt
  | false => exact h.above ha ha hlt

/-- The items of the heap are in the class. -/
def All (P : α → Prop) (heap : Array α) : Prop := ∀ x ∈ heap, P x

/-- The parent of each item of a set of positions comes before it, from `start` on. -/
def OrderedOn (le : α → α → Prop) (start : Nat) (heap : Array α) (S : Nat → Prop) : Prop :=
  ∀ i x y, S i → 0 < i → start ≤ (i - 1) / 2 → heap[(i - 1) / 2]? = some x → heap[i]? = some y →
    le x y

/-- No item comes before its parent, for parents from `start` on. -/
def Ordered (le : α → α → Prop) (start : Nat) (heap : Array α) : Prop :=
  OrderedOn le start heap fun _ => True

/-- `pos` is below `start`. -/
inductive Below (start : Nat) : Nat → Prop where
  | refl : Below start start
  | child {pos : Nat} : start < pos → Below start ((pos - 1) / 2) → Below start pos

/-- The order around the item at `pos`: the positions of `S` are in order, and what is below `pos`
comes after the parent of `pos`. -/
structure Around (le : α → α → Prop) (start : Nat) (heap : Array α) (pos : Nat)
    (S : Nat → Prop) : Prop where
  below : Below start pos
  rest : OrderedOn le start heap S
  grand : start < pos → ∀ c x y, 0 < c → (c - 1) / 2 = pos → heap[(pos - 1) / 2]? = some x →
    heap[c]? = some y → le x y

/-- Only the parent of the item may come after it. -/
abbrev Rising (le : α → α → Prop) (start : Nat) (heap : Array α) (pos : Nat) : Prop :=
  Around le start heap pos (· ≠ pos)

/-- The item may come anywhere among its neighbours. -/
abbrev Sinking (le : α → α → Prop) (start : Nat) (heap : Array α) (pos : Nat) : Prop :=
  Around le start heap pos fun i => i ≠ pos ∧ (i - 1) / 2 ≠ pos

theorem Below.le {start pos : Nat} (h : Below start pos) : start ≤ pos := by
  cases h with
  | refl => exact Nat.le_refl _
  | child hlt _ => exact Nat.le_of_lt hlt

theorem Below.parent {start pos : Nat} (h : Below start pos) (hlt : start < pos) :
    Below start ((pos - 1) / 2) := by
  cases h with
  | refl => omega
  | child _ hb => exact hb

theorem below_zero (pos : Nat) : Below 0 pos := by
  induction pos using Nat.strongRecOn with
  | _ pos ih =>
    by_cases hz : pos = 0
    · rw [hz]
      exact .refl
    · exact .child (by omega) (ih _ (by omega))

variable {lt : α → α → Bool} {le : α → α → Prop} {P : α → Prop} {heap : Array α}
  {start fuel pos : Nat}

theorem getElem?_swapIfInBounds {i j : Nat} {a b : α} (hi : heap[i]? = some a)
    (hj : heap[j]? = some b) (k : Nat) :
    (heap.swapIfInBounds i j)[k]? =
      if k = i then some b else if k = j then some a else heap[k]? := by
  obtain ⟨hi', rfl⟩ := Array.getElem?_eq_some_iff.mp hi
  obtain ⟨hj', rfl⟩ := Array.getElem?_eq_some_iff.mp hj
  rw [Array.swapIfInBounds_def, dif_pos hi', dif_pos hj', Array.getElem?_swap]
  by_cases hki : k = i
  · subst hki
    by_cases hkj : k = j
    · subst hkj
      simp
    · simp [Ne.symm hkj]
  · by_cases hkj : k = j
    · subst hkj
      simp [hki]
    · simp [hki, hkj, Ne.symm hki, Ne.symm hkj]

theorem All.get (h : All P heap) {i : Nat} {x : α} (hx : heap[i]? = some x) : P x :=
  h x (Array.mem_of_getElem? hx)

theorem All.of_perm {heap' : Array α} (h : All P heap) (hperm : heap'.Perm heap) : All P heap' :=
  fun x hx => h x (hperm.mem_iff.mp hx)

/-! ## An item goes up -/

/-- The item goes up past its parent. -/
theorem Around.up (hr : Respects lt le P) (h : Rising le start heap pos) (hgt : start < pos)
    {newitem parent : α} (hnew : heap[pos]? = some newitem)
    (hparent : heap[(pos - 1) / 2]? = some parent) (hle : le newitem parent) :
    Rising le start (heap.swapIfInBounds pos ((pos - 1) / 2)) ((pos - 1) / 2) := by
  have hbelow := h.below.parent hgt
  have hget := getElem?_swapIfInBounds hnew hparent
  have hne : (pos - 1) / 2 ≠ pos := by omega
  -- the other children of the parent come after it
  have hsibling : ∀ i y, i ≠ pos → 0 < i → (i - 1) / 2 = (pos - 1) / 2 → heap[i]? = some y →
      le parent y := fun i y hip hi heq hy =>
    h.rest i parent y hip hi (heq ▸ hbelow.le) (heq ▸ hparent) hy
  refine ⟨hbelow, fun i x y hiq hi hs hx hy => ?_, fun hs c x y hc heq hx hy => ?_⟩
  · rw [hget] at hx hy
    by_cases hip : i = pos
    · subst hip
      simp only [if_neg hne, if_true] at hx
      simp only [if_true] at hy
      obtain rfl := Option.some.inj hx
      obtain rfl := Option.some.inj hy
      exact hle
    · simp only [if_neg hip, if_neg hiq] at hy
      by_cases hparentpos : (i - 1) / 2 = pos
      · simp only [hparentpos, if_true] at hx
        obtain rfl := Option.some.inj hx
        exact h.grand hgt i _ y hi hparentpos hparent hy
      · by_cases hsame : (i - 1) / 2 = (pos - 1) / 2
        · simp only [hsame, if_neg hne, if_true] at hx
          obtain rfl := Option.some.inj hx
          exact hr.trans hle (hsibling i y hip hi hsame hy)
        · simp only [if_neg hparentpos, if_neg hsame] at hx
          exact h.rest i x y hip hi hs hx hy
  · have hup : ((pos - 1) / 2 - 1) / 2 ≠ pos ∧ ((pos - 1) / 2 - 1) / 2 ≠ (pos - 1) / 2 := by
      omega
    rw [hget, if_neg hup.1, if_neg hup.2] at hx
    have hgrand : le x parent :=
      h.rest _ x parent hne (by omega) (hbelow.parent hs).le hx hparent
    rw [hget] at hy
    by_cases hcp : c = pos
    · simp only [hcp, if_true] at hy
      obtain rfl := Option.some.inj hy
      exact hgrand
    · have hcq : c ≠ (pos - 1) / 2 := by omega
      simp only [if_neg hcp, if_neg hcq] at hy
      exact hr.trans hgrand (hsibling c y hcp hc heq hy)

/-- Where the item comes after its parent all are in order. -/
theorem Around.done (h : Rising le start heap pos) (hedge : start < pos → ∀ x y,
    heap[(pos - 1) / 2]? = some x → heap[pos]? = some y → le x y) : Ordered le start heap := by
  intro i x y _ hi hs hx hy
  by_cases hip : i = pos
  · subst hip
    exact hedge (by omega) x y hx hy
  · exact h.rest i x y hip hi hs hx hy

theorem siftdown_ordered (hr : Respects lt le P) (hP : All P heap) (h : Rising le start heap pos)
    (hfuel : pos ≤ fuel) : Ordered le start (siftdown lt start fuel pos heap) := by
  induction fuel generalizing pos heap with
  | zero => exact h.done fun hlt => by omega
  | succ fuel ih =>
    unfold siftdown
    split
    · rename_i hgt
      dsimp only
      split
      · rename_i newitem parent hnew hparent
        split
        · rename_i hlt
          have hle := hr.below (hP.get hnew) (hP.get hparent) hlt
          exact ih (hP.of_perm (swapIfInBounds_perm heap _ _)) (h.up hr hgt hnew hparent hle)
            (by omega)
        · rename_i hnlt
          refine h.done fun _ x y hx hy => ?_
          obtain rfl := Option.some.inj (hx.symm.trans hparent)
          obtain rfl := Option.some.inj (hy.symm.trans hnew)
          exact hr.above (hP.get hnew) (hP.get hparent) (by simpa using hnlt)
      · rename_i hnone
        exact h.done fun _ x y hx hy => absurd hx (hnone y x hy)
    · exact h.done fun hlt => by omega

/-! ## Smaller items go up -/

/-- The smaller child of the item goes up past it. -/
theorem Around.down (h : Sinking le start heap pos) {c : Nat}
    {item child : α} (hitem : heap[pos]? = some item) (hc : 0 < c) (hcp : (c - 1) / 2 = pos)
    (hchild : heap[c]? = some child) (hsmall : ∀ d y, 0 < d → (d - 1) / 2 = pos →
      heap[d]? = some y → le child y) : Sinking le start (heap.swapIfInBounds pos c) c := by
  have hget := getElem?_swapIfInBounds hitem hchild
  have hlt : pos < c := by omega
  have hbelow : Below start c := .child (Nat.lt_of_le_of_lt h.below.le hlt) (hcp.symm ▸ h.below)
  refine ⟨hbelow, fun i x y hi' hi hs hx hy => ?_, fun _ d x y hd hdc hx hy => ?_⟩
  · obtain ⟨hic, hpc⟩ := hi'
    rw [hget] at hx hy
    by_cases hip : i = pos
    · -- the child has come below the parent of the item
      have hpos : ((i - 1) / 2) ≠ pos := by omega
      simp only [if_neg hpos, if_neg hpc] at hx
      simp only [hip, if_true] at hy
      obtain rfl := Option.some.inj hy
      subst hip
      exact h.grand (by omega) c x _ hc hcp hx hchild
    · simp only [if_neg hip, if_neg hic] at hy
      by_cases hparent : (i - 1) / 2 = pos
      · simp only [hparent, if_true] at hx
        obtain rfl := Option.some.inj hx
        exact hsmall i y hi hparent hy
      · simp only [if_neg hparent, if_neg hpc] at hx
        exact h.rest i x y ⟨hip, hparent⟩ hi hs hx hy
  · rw [hcp, hget] at hx
    simp only [if_true] at hx
    obtain rfl := Option.some.inj hx
    have hdp : d ≠ pos ∧ d ≠ c := by omega
    rw [hget, if_neg hdp.1, if_neg hdp.2] at hy
    exact h.rest d _ y ⟨hdp.1, by omega⟩ hd (by rw [hdc]; exact hbelow.le) (hdc.symm ▸ hchild) hy

/-- At a leaf there is nothing below the item. -/
theorem Around.leaf (h : Sinking le start heap pos) (hnone : heap[2 * pos + 1]? = none) :
    Rising le start heap pos := by
  have hsize : heap.size ≤ 2 * pos + 1 := Array.getElem?_eq_none_iff.mp hnone
  refine ⟨h.below, fun i x y hip hi hs hx hy => h.rest i x y ⟨hip, ?_⟩ hi hs hx hy, h.grand⟩
  have hlt := (Array.getElem?_eq_some_iff.mp hy).1
  omega

theorem siftupLoop_rising (hr : Respects lt le P) (hP : All P heap)
    (h : Sinking le start heap pos) (hfuel : heap.size ≤ fuel + pos) :
    Rising le start (siftupLoop lt fuel pos heap).2 (siftupLoop lt fuel pos heap).1 := by
  induction fuel generalizing pos heap with
  | zero => exact h.leaf (Array.getElem?_eq_none_iff.mpr (by omega))
  | succ fuel ih =>
    unfold siftupLoop
    dsimp only
    split
    · rename_i hnone
      exact h.leaf hnone
    · rename_i child hchild
      have hpos : pos < heap.size := by
        have hlt := (Array.getElem?_eq_some_iff.mp hchild).1
        omega
      have hitem := Array.getElem?_eq_getElem hpos
      -- the children of the item
      have hchildren : ∀ d, 0 < d → (d - 1) / 2 = pos → d = 2 * pos + 1 ∨ d = 2 * pos + 2 := by
        omega
      have hnext : ∀ c x, (c = 2 * pos + 1 ∨ c = 2 * pos + 2) → heap[c]? = some x →
          (∀ d y, 0 < d → (d - 1) / 2 = pos → heap[d]? = some y → le x y) →
          Rising le start (siftupLoop lt fuel c (heap.swapIfInBounds pos c)).2
            (siftupLoop lt fuel c (heap.swapIfInBounds pos c)).1 := by
        intro c x hc hx hsmall
        refine ih (hP.of_perm (swapIfInBounds_perm heap _ _))
          (h.down hitem (by omega) (by omega) hx hsmall) ?_
        rw [Array.size_swapIfInBounds]
        omega
      have hPchild := hP.get hchild
      split
      · rename_i right hright
        have hPright := hP.get hright
        split
        · rename_i hlt
          refine hnext _ child (.inl rfl) hchild fun d y hd hdp hy => ?_
          obtain rfl | rfl := hchildren d hd hdp
          · obtain rfl := Option.some.inj (hchild.symm.trans hy)
            exact hr.refl hPchild
          · obtain rfl := Option.some.inj (hright.symm.trans hy)
            exact hr.below hPchild hPright hlt
        · rename_i hnlt
          refine hnext _ right (.inr rfl) hright fun d y hd hdp hy => ?_
          obtain rfl | rfl := hchildren d hd hdp
          · obtain rfl := Option.some.inj (hchild.symm.trans hy)
            exact hr.above hPchild hPright (by simpa using hnlt)
          · obtain rfl := Option.some.inj (hright.symm.trans hy)
            exact hr.refl hPright
      · rename_i hnone
        refine hnext _ child (.inl rfl) hchild fun d y hd hdp hy => ?_
        obtain rfl | rfl := hchildren d hd hdp
        · obtain rfl := Option.some.inj (hchild.symm.trans hy)
          exact hr.refl hPchild
        · have hy' : heap[2 * pos + 1 + 1]? = some y := hy
          rw [hnone] at hy'
          cases hy'

theorem siftupLoop_le (fuel pos : Nat) (heap : Array α) (hpos : pos ≤ heap.size) :
    (siftupLoop lt fuel pos heap).1 ≤ heap.size := by
  induction fuel generalizing pos heap with
  | zero => exact hpos
  | succ fuel ih =>
    unfold siftupLoop
    dsimp only
    split
    · exact hpos
    · rename_i child hchild
      have hlt := (Array.getElem?_eq_some_iff.mp hchild).1
      have hnext : ∀ c, c ≤ heap.size →
          (siftupLoop lt fuel c (heap.swapIfInBounds pos c)).1 ≤ heap.size := by
        intro c hc
        have hle := ih c (heap.swapIfInBounds pos c) (by rwa [Array.size_swapIfInBounds])
        rwa [Array.size_swapIfInBounds] at hle
      split
      · rename_i right hright
        have hlt' := (Array.getElem?_eq_some_iff.mp hright).1
        split
        · exact hnext _ (Nat.le_of_lt hlt)
        · exact hnext _ (Nat.le_of_lt hlt')
      · exact hnext _ (Nat.le_of_lt hlt)

/-- The item at `pos` finds its place below it. -/
theorem siftup_ordered (hr : Respects lt le P) (hP : All P heap) (hpos : pos ≤ heap.size)
    (h : Ordered le (pos + 1) heap) : Ordered le pos (siftup lt pos heap) := by
  have hsinking : Sinking le pos heap pos :=
    ⟨.refl, fun i x y hi hpos hs hx hy => h i x y trivial hpos (by omega) hx hy,
      fun hlt => by omega⟩
  have hrising := siftupLoop_rising hr hP hsinking (Nat.le_add_right heap.size pos)
  exact siftdown_ordered hr (hP.of_perm (siftupLoop_perm lt _ _ _)) hrising
    (siftupLoop_le _ _ _ hpos)

/-! ## Heaps -/

theorem heappush_ordered (hr : Respects lt le P) (hP : All P heap) (h : Ordered le 0 heap)
    {item : α} (hitem : P item) : Ordered le 0 (heappush lt heap item) := by
  have hP' : All P (heap.push item) := fun x hx => by
    obtain hx | rfl := Array.mem_push.mp hx
    · exact hP x hx
    · exact hitem
  refine siftdown_ordered hr hP' ⟨below_zero _, fun i x y hi hpos hs hx hy => ?_,
    fun _ c x y hc hparent _ hy => ?_⟩ (Nat.le_succ _)
  · have hlt := (Array.getElem?_eq_some_iff.mp hy).1
    rw [Array.size_push] at hlt
    rw [Array.getElem?_push, if_neg (by omega)] at hx
    rw [Array.getElem?_push, if_neg hi] at hy
    exact h i x y trivial hpos hs hx hy
  · have hlt := (Array.getElem?_eq_some_iff.mp hy).1
    rw [Array.size_push] at hlt
    omega

theorem heappop_ordered (hr : Respects lt le P) (hP : All P heap) (h : Ordered le 0 heap)
    {first : α} {rest : Array α} (hpop : heappop lt heap = some (first, rest)) :
    heap[0]? = some first ∧ Ordered le 0 rest := by
  unfold heappop at hpop
  split at hpop
  · cases hpop
  · rename_i x hx
    obtain ⟨rfl, rfl⟩ := Prod.mk.inj (Option.some.inj hpop)
    have hpos : 0 < heap.size := (Array.getElem?_eq_some_iff.mp hx).1
    have hlast : heap[heap.size - 1]? = some heap[heap.size - 1] :=
      Array.getElem?_eq_getElem (by omega)
    refine ⟨hx, siftup_ordered hr (fun y hy => ?_) (Nat.zero_le _) fun i x' y _ hi hs hx' hy => ?_⟩
    · have hmem : y ∈ (heap.swapIfInBounds 0 (heap.size - 1)).toList :=
        (List.dropLast_sublist _).subset (Array.toList_pop ▸ Array.mem_toList_iff.mpr hy)
      exact hP.of_perm (swapIfInBounds_perm heap _ _) y (Array.mem_toList_iff.mp hmem)
    · -- the last item is now the first
      have hlt := (Array.getElem?_eq_some_iff.mp hy).1
      rw [Array.size_pop, Array.size_swapIfInBounds] at hlt
      have hget := getElem?_swapIfInBounds hx hlast
      rw [Array.getElem?_pop, Array.size_swapIfInBounds, if_pos (by omega), hget,
        if_neg (by omega), if_neg (by omega)] at hx'
      rw [Array.getElem?_pop, Array.size_swapIfInBounds, if_pos (by omega), hget,
        if_neg (by omega), if_neg (by omega)] at hy
      exact h i x' y trivial hi (Nat.zero_le _) hx' hy

theorem heapify_ordered (hr : Respects lt le P) (hP : All P heap) :
    Ordered le 0 (heapify lt heap) := by
  unfold heapify
  have hstart : Ordered le (heap.size / 2) heap := fun i x y _ hi hs hx hy => by
    have hlt := (Array.getElem?_eq_some_iff.mp hy).1
    omega
  have hk : heap.size / 2 ≤ heap.size := Nat.div_le_self _ _
  generalize heap.size / 2 = k at hstart hk
  induction k generalizing heap with
  | zero => exact hstart
  | succ k ih =>
    rw [List.range_succ, List.reverse_append, List.reverse_singleton, List.singleton_append,
      List.foldl_cons]
    have hsize : (siftup lt k heap).size = heap.size := (siftup_perm lt k heap).size_eq
    exact ih (hP.of_perm (siftup_perm lt k heap)) (siftup_ordered hr hP (by omega) hstart)
      (by omega)

/-- The first item comes before all others. -/
theorem Ordered.first (hr : Respects lt le P) (hP : All P heap) (h : Ordered le 0 heap) {x y : α}
    (hx : heap[0]? = some x) {i : Nat} (hy : heap[i]? = some y) : le x y := by
  induction i using Nat.strongRecOn generalizing y with
  | _ i ih =>
    by_cases hz : i = 0
    · subst hz
      obtain rfl := Option.some.inj (hx.symm.trans hy)
      exact hr.refl (hP.get hx)
    · have hlt := (Array.getElem?_eq_some_iff.mp hy).1
      have hparent : heap[(i - 1) / 2]? = some heap[(i - 1) / 2] :=
        Array.getElem?_eq_getElem (by omega)
      exact hr.trans (ih _ (by omega) hparent)
        (h i _ y trivial (by omega) (Nat.zero_le _) hparent hy)

end Heap
