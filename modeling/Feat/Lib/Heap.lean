/- Binary heaps in an array (`heapq`): the item with the least priority that a comparison
   finds comes first. Nothing is assumed of the comparison, so what is known of a heap is
   which items it holds: `heappush_perm`, `heappop_perm` and `heapify_perm`. -/
namespace Heap

variable {α : Type} (lt : α → α → Bool)

/-- `_siftdown`: the item at `pos` goes up past the greater parents, no higher than
    `startpos`. -/
def siftdown (startpos : Nat) : Nat → Nat → Array α → Array α
  | 0, _, heap => heap
  | fuel + 1, pos, heap =>
    if pos > startpos then
      let parentpos := (pos - 1) / 2
      match heap[pos]?, heap[parentpos]? with
      | some newitem, some parent =>
        if lt newitem parent then
          siftdown startpos fuel parentpos (heap.swapIfInBounds pos parentpos)
        else heap
      | _, _ => heap
    else heap

/-- The loop of `_siftup`: the smaller children move up until a leaf is reached. -/
def siftupLoop : Nat → Nat → Array α → Nat × Array α
  | 0, pos, heap => (pos, heap)
  | fuel + 1, pos, heap =>
    let childpos := 2 * pos + 1
    match heap[childpos]? with
    | none => (pos, heap)
    | some child =>
      let childpos := match heap[childpos + 1]? with
        | some right => if lt child right then childpos else childpos + 1
        | none => childpos
      siftupLoop fuel childpos (heap.swapIfInBounds pos childpos)

/-- `_siftup`. -/
def siftup (pos : Nat) (heap : Array α) : Array α :=
  let (leaf, moved) := siftupLoop lt heap.size pos heap
  siftdown lt pos heap.size leaf moved

/-- `heappush`. -/
def heappush (heap : Array α) (item : α) : Array α :=
  siftdown lt 0 (heap.size + 1) heap.size (heap.push item)

/-- `heappop`: the first item, and the heap without it. -/
def heappop (heap : Array α) : Option (α × Array α) :=
  match heap[0]? with
  | none => none
  | some first =>
    some (first, siftup lt 0 (heap.swapIfInBounds 0 (heap.size - 1)).pop)

/-- `heapify`. -/
def heapify (heap : Array α) : Array α :=
  (List.range (heap.size / 2)).reverse.foldl (fun heap pos => siftup lt pos heap) heap

theorem swapIfInBounds_perm (heap : Array α) (i j : Nat) :
    (heap.swapIfInBounds i j).Perm heap := by
  unfold Array.swapIfInBounds
  split
  · split
    · exact Array.swap_perm _ _
    · exact .refl _
  · exact .refl _

theorem siftdown_perm (startpos fuel pos : Nat) (heap : Array α) :
    (siftdown lt startpos fuel pos heap).Perm heap := by
  induction fuel generalizing pos heap with
  | zero => exact .refl _
  | succ fuel ih =>
    unfold siftdown
    dsimp only
    split
    · split
      · split
        · exact (ih _ _).trans (swapIfInBounds_perm _ _ _)
        · exact .refl _
      · exact .refl _
    · exact .refl _

theorem siftupLoop_perm (fuel pos : Nat) (heap : Array α) :
    (siftupLoop lt fuel pos heap).2.Perm heap := by
  induction fuel generalizing pos heap with
  | zero => exact .refl _
  | succ fuel ih =>
    unfold siftupLoop
    dsimp only
    split
    · exact .refl _
    · exact (ih _ _).trans (swapIfInBounds_perm _ _ _)

theorem siftup_perm (pos : Nat) (heap : Array α) : (siftup lt pos heap).Perm heap :=
  (siftdown_perm lt _ _ _ _).trans (siftupLoop_perm lt _ _ _)

theorem heappush_perm (heap : Array α) (item : α) :
    (heappush lt heap item).toList.Perm (item :: heap.toList) := by
  have h := (siftdown_perm lt 0 (heap.size + 1) heap.size (heap.push item)).toList
  rw [Array.toList_push] at h
  exact h.trans (List.perm_append_singleton _ _)

theorem heappop_perm {heap rest : Array α} {first : α} (h : heappop lt heap = some (first, rest)) :
    heap.toList.Perm (first :: rest.toList) := by
  unfold heappop at h
  split at h
  · cases h
  · rename_i x hx
    obtain ⟨rfl, rfl⟩ := Prod.mk.inj (Option.some.inj h)
    have hpos : 0 < heap.size := by
      by_cases hz : heap.size = 0
      · rw [Array.getElem?_eq_none (by omega)] at hx
        cases hx
      · omega
    -- the first item, swapped to the end, is what is dropped
    have hlast : (heap.swapIfInBounds 0 (heap.size - 1)).toList =
        (heap.swapIfInBounds 0 (heap.size - 1)).pop.toList ++ [x] := by
      have hget : (heap.swapIfInBounds 0 (heap.size - 1)).toList.getLast? = some x := by
        rw [Array.swapIfInBounds_def, dif_pos hpos, dif_pos (by omega), List.getLast?_eq_getElem?,
          Array.getElem?_toList, Array.length_toList, Array.size_swap, ← hx]
        simp [Array.getElem?_swap, hpos]
      obtain ⟨front, hfront⟩ := List.getLast?_eq_some_iff.mp hget
      rw [Array.toList_pop, hfront, List.dropLast_concat]
    refine (swapIfInBounds_perm heap 0 (heap.size - 1)).toList.symm.trans ?_
    rw [hlast]
    exact (List.perm_append_singleton _ _).trans (.cons x (siftup_perm lt 0 _).toList.symm)

theorem heappop_none {heap : Array α} (h : heappop lt heap = none) : heap.toList = [] := by
  unfold heappop at h
  split at h
  · rename_i hx
    simpa using hx
  · cases h

theorem heapify_perm (heap : Array α) : (heapify lt heap).toList.Perm heap.toList := by
  unfold heapify
  generalize (List.range (heap.size / 2)).reverse = l
  induction l generalizing heap with
  | nil => exact .refl _
  | cons pos l ih => exact (ih _).trans (siftup_perm lt pos heap).toList

end Heap
