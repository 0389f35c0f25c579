import Mathlib.Data.Set.Finite.Lattice
import Mathlib.Tactic.Linarith
import Feat.Lib.HeapOrder
import Feat.Common.ExpQueue

/- In which order the values of a queue are popped. Two expirations compare as equal when they are
   less than half a millisecond apart, which is no equivalence: a chain of such expirations may
   be longer than a millisecond, and along it the heap is in any order. Where every two
   expirations of the values added that are a millisecond apart have a gap of half a millisecond
   between them (`Spaced`), the gaps are a preorder that the comparison respects
   (`respects_before`), and `pop` gives a value that is not later than any other by a millisecond
   (`pop_first_of_spaced`). -/
namespace Feat.Common
open Expiring

variable {V : Type}

/-! ## The properties -/

/-- The expiration of an item is not later by a millisecond or more. -/
def NotLater (i j : Item ℚ V) : Prop :=
  match i.exp, j.exp with
  | _, none => True
  | none, some _ => False
  | some a, some b => a < b + 1 / precision

instance (i j : Item ℚ V) : Decidable (NotLater i j) := by
  unfold NotLater
  split <;> infer_instance

/-- `pop` gives a live value that is not later than the others, or there is no live value. -/
def PopsFirst (q : ExpQueue V) (now : ℚ) : Prop :=
  match (q.pop now).1 with
  | none => ∀ i ∈ q.heap.toList, i.alive now = false
  | some value => ∃ i ∈ q.heap.toList, i.value = value ∧ i.alive now = true ∧
      ∀ j ∈ q.heap.toList, j.alive now = true → NotLater i j

instance [DecidableEq V] (q : ExpQueue V) (now : ℚ) : Decidable (PopsFirst q now) := by
  unfold PopsFirst
  split <;> infer_instance

/-- The times at which the values that are added expire. -/
def deadlines (es : List (QueueOp V)) : List ℚ :=
  es.filterMap fun
    | .add now _ expiration relative => deadline now expiration relative
    | _ => none

/-- No expiration is in the half millisecond after `t`. -/
def Cut (l : List ℚ) (t : ℚ) : Prop := ∀ e ∈ l, e ≤ t ∨ t + 1 / (2 * precision) ≤ e

instance (l : List ℚ) (t : ℚ) : Decidable (Cut l t) :=
  inferInstanceAs (Decidable (∀ e ∈ l, _))

/-- Between two expirations that are a millisecond apart there is a gap of half a millisecond. -/
def Spaced (l : List ℚ) : Prop :=
  ∀ a ∈ l, ∀ b ∈ l, a + 1 / precision ≤ b → ∃ t ∈ l, a ≤ t ∧ t + 1 / (2 * precision) ≤ b ∧ Cut l t

instance (l : List ℚ) : Decidable (Spaced l) :=
  inferInstanceAs (Decidable (∀ a ∈ l, ∀ b ∈ l, _ → ∃ t ∈ l, _))

/-! ## The preorder -/

variable {l : List ℚ} {i j : Item ℚ V} {now : ℚ} {q : ExpQueue V}

/-- The item expires, and not after `t`. -/
def Until (t : ℚ) (i : Item ℚ V) : Prop := ∃ e, i.exp = some e ∧ e ≤ t

/-- Wherever there is a gap, the first item is before it if the second is. -/
def Before (l : List ℚ) (i j : Item ℚ V) : Prop := ∀ t, Cut l t → Until t j → Until t i

/-- An item that expires at one of the times, if ever. -/
def Among (l : List ℚ) (i : Item ℚ V) : Prop := ∀ e, i.exp = some e → e ∈ l

theorem intRound_neg {x : ℚ} : intRound x < 0 ↔ x ≤ -(1 / 2) := by
  unfold intRound
  split
  · rename_i hx
    have hfloor : 0 ≤ ⌊x + 1 / 2⌋ := Int.floor_nonneg.mpr (by linarith)
    constructor
    · intro h
      omega
    · intro h
      linarith
  · have hiff : 1 ≤ ⌊-x + 1 / 2⌋ ↔ x ≤ -(1 / 2) := by
      rw [Int.le_floor]
      push_cast
      constructor <;> intro h <;> linarith
    rw [← hiff]
    omega

/-- What the comparison says. -/
theorem lt_iff : ExpItem.lt i j = true ↔ ∃ a, i.exp = some a ∧
    ∀ b, j.exp = some b → a + 1 / (2 * precision) ≤ b := by
  unfold ExpItem.lt ExpItem.cmp
  cases hi : i.exp with
  | none => cases hj : j.exp <;> simp
  | some a =>
    cases hj : j.exp with
    | none => simp
    | some b =>
      simp only [decide_eq_true_eq, intRound_neg, precision, Option.some.injEq]
      constructor
      · intro h
        refine ⟨a, rfl, ?_⟩
        rintro _ rfl
        linarith
      · rintro ⟨_, rfl, h⟩
        have hle := h b rfl
        linarith

theorem respects_before : Heap.Respects (ExpItem.lt (V := V)) (Before l) (Among l) where
  trans hab hbc t ht hc := hab t ht (hbc t ht hc)
  below := by
    intro a b _ _ hlt t _ hb
    obtain ⟨e, he, hgap⟩ := lt_iff.mp hlt
    obtain ⟨e', he', hle⟩ := hb
    have hlate := hgap e' he'
    have hpos : (0 : ℚ) ≤ 1 / (2 * precision) := by norm_num [precision]
    exact ⟨e, he, by linarith⟩
  above := by
    intro a b _ hb hlt t ht ha
    obtain ⟨e, he, hle⟩ := ha
    -- the second item expires less than half a millisecond after the first
    have hnear : ∃ e', b.exp = some e' ∧ e' < e + 1 / (2 * precision) := by
      by_contra hnot
      have htrue : ExpItem.lt a b = true := lt_iff.mpr ⟨e, he, fun e' he' => by
        by_contra hlt'
        exact hnot ⟨e', he', by linarith⟩⟩
      rw [hlt] at htrue
      cases htrue
    obtain ⟨e', he', hnear⟩ := hnear
    obtain hcut | hcut := ht e' (hb e' he')
    · exact ⟨e', he', hcut⟩
    · linarith

/-- An item that comes before another is not later by a millisecond. -/
theorem Before.notLater (h : Before l i j) (hs : Spaced l) (hi : Among l i) (hj : Among l j) :
    NotLater i j := by
  unfold NotLater
  cases hje : j.exp with
  | none => simp
  | some b =>
    have hbl := hj b hje
    cases hie : i.exp with
    | none =>
      -- after the last of the times there is a gap
      obtain ⟨t, hmax⟩ : ∃ t, ∀ e ∈ l, e ≤ t := by
        obtain ⟨t, ht⟩ := (List.finite_toSet l).bddAbove
        exact ⟨t, fun e he => ht he⟩
      obtain ⟨e, he, -⟩ := h t (fun e he => .inl (hmax e he)) ⟨b, hje, hmax b hbl⟩
      rw [hie] at he
      cases he
    | some a =>
      by_contra hlate
      have hle : b + 1 / precision ≤ a := by simpa using hlate
      obtain ⟨t, -, hbt, hta, hcut⟩ := hs b hbl a (hi a hie) hle
      obtain ⟨e, he, hle'⟩ := h t hcut ⟨b, hje, hbt⟩
      rw [hie] at he
      obtain rfl := Option.some.inj he
      have hpos : (0 : ℚ) < 1 / (2 * precision) := by norm_num [precision]
      linarith

/-! ## The heap of a queue -/

/-- The heap of a queue whose values expire at the times of `l`. -/
structure Heaped (l : List ℚ) (heap : Array (Item ℚ V)) : Prop where
  among : Heap.All (Among l) heap
  ordered : Heap.Ordered (Before l) 0 heap

theorem heaped_empty (l : List ℚ) : Heaped l (#[] : Array (Item ℚ V)) :=
  ⟨fun i hi => by simp at hi, fun i x y _ _ _ _ hy => by simp at hy⟩

theorem Heaped.pack (h : Heaped l q.heap) (now : ℚ) : Heaped l (q.pack now).2.heap := by
  have hlive : Heap.All (Among l) (q.heap.toList.filter (Item.alive now)).toArray := by
    intro i hi
    have hmem := (List.mem_filter.mp (List.mem_toArray.mp hi)).1
    exact h.among i (Array.mem_toList_iff.mp hmem)
  refine ⟨fun i hi => hlive i ?_, Heap.heapify_ordered respects_before hlive⟩
  have hperm := Heap.heapify_perm ExpItem.lt (q.heap.toList.filter (Item.alive now)).toArray
  exact Array.mem_toList_iff.mp (hperm.mem_iff.mp (Array.mem_toList_iff.mpr hi))

theorem Heaped.lazyPack (h : Heaped l q.heap) (now : ℚ) : Heaped l (q.lazyPack now).2.heap := by
  unfold ExpQueue.lazyPack
  split
  · split
    · exact h.pack now
    · exact h
  · exact h

theorem Heaped.clear (l : List ℚ) (q : ExpQueue V) : Heaped l q.clear.heap :=
  heaped_empty l

theorem Heaped.add (h : Heaped l q.heap) (now : ℚ) (value : V) (expiration : Option ℚ)
    (relative : Bool) (hin : ∀ e, deadline now expiration relative = some e → e ∈ l) :
    Heaped l (q.add now value expiration relative).2.heap := by
  have hpacked := h.lazyPack now
  unfold ExpQueue.add
  dsimp only
  split
  · refine ⟨fun i hi => ?_, Heap.heappush_ordered respects_before hpacked.among hpacked.ordered hin⟩
    have hmem := (Heap.heappush_perm ExpItem.lt (q.lazyPack now).2.heap
      ⟨deadline now expiration relative, value⟩).mem_iff.mp (Array.mem_toList_iff.mpr hi)
    obtain rfl | hmem := List.mem_cons.mp hmem
    · exact hin
    · exact hpacked.among i (Array.mem_toList_iff.mp hmem)
  · exact hpacked

/-- What the loop of `pop` takes comes before all that is live. -/
theorem popLoop_first {fuel : Nat} {heap rest : Array (Item ℚ V)} {value : Option V}
    {dropped : List (Item ℚ V)} (h : Heaped l heap)
    (hpop : ExpQueue.popLoop now fuel heap = (value, dropped, rest)) :
    Heaped l rest ∧ ∀ v, value = some v → ∃ i ∈ heap.toList, i.value = v ∧ i.alive now = true ∧
      ∀ j ∈ heap.toList, j.alive now = true → Before l i j := by
  induction fuel generalizing heap dropped with
  | zero =>
    cases hpop
    exact ⟨h, fun v hv => by cases hv⟩
  | succ fuel ih =>
    unfold ExpQueue.popLoop at hpop
    split at hpop
    · cases hpop
      exact ⟨h, fun v hv => by cases hv⟩
    · rename_i item left hheap
      have hperm := Heap.heappop_perm ExpItem.lt hheap
      obtain ⟨hfirst, hordered⟩ := Heap.heappop_ordered respects_before h.among h.ordered hheap
      have hitem : item ∈ heap.toList := hperm.mem_iff.mpr List.mem_cons_self
      have hleft : Heaped l left := ⟨fun i hi => h.among i (Array.mem_toList_iff.mp
        (hperm.mem_iff.mpr (List.mem_cons_of_mem _ (Array.mem_toList_iff.mpr hi)))), hordered⟩
      split at hpop
      · rename_i halive
        cases hpop
        refine ⟨hleft, fun v hv => ?_⟩
        obtain rfl := Option.some.inj hv
        refine ⟨item, hitem, rfl, halive, fun j hj _ => ?_⟩
        obtain ⟨k, hk⟩ := List.mem_iff_getElem?.mp hj
        rw [Array.getElem?_toList] at hk
        exact h.ordered.first respects_before h.among hfirst hk
      · rename_i hover
        rcases hrec : ExpQueue.popLoop now fuel left with ⟨v', dropped', rest'⟩
        rw [hrec] at hpop
        cases hpop
        obtain ⟨hrest, hfound⟩ := ih hleft hrec
        refine ⟨hrest, fun v hv => ?_⟩
        obtain ⟨i, hi, hvalue, halive, hbefore⟩ := hfound v hv
        refine ⟨i, hperm.mem_iff.mpr (List.mem_cons_of_mem _ hi), hvalue, halive,
          fun j hj hjalive => ?_⟩
        obtain rfl | hj := List.mem_cons.mp (hperm.mem_iff.mp hj)
        · exact absurd hjalive hover
        · exact hbefore j hj hjalive

/-! ## Operations -/

/-- What `lazyPack` leaves live was live, and it leaves all that is. -/
theorem mem_lazyPack {q : ExpQueue V} {now : ℚ} {i : Item ℚ V} :
    (i ∈ (q.lazyPack now).2.heap.toList → i ∈ q.heap.toList) ∧
      (i.alive now = true → i ∈ q.heap.toList → i ∈ (q.lazyPack now).2.heap.toList) := by
  obtain ⟨hperm, hexpired⟩ := ExpQueue.lazyPack_spec q now
  refine ⟨fun hi => hperm.mem_iff.mpr (List.mem_append_right _ hi), fun halive hi => ?_⟩
  obtain hi | hi := List.mem_append.mp (hperm.mem_iff.mp hi)
  · rw [hexpired i hi] at halive
    cases halive
  · exact hi

theorem Heaped.pop (h : Heaped l q.heap) (now : ℚ) : Heaped l (q.pop now).2.2.heap :=
  (popLoop_first (h.lazyPack now) rfl).1

/-- An operation keeps the heap, where what it adds expires at one of the times. -/
theorem Heaped.step (h : Heaped l q.heap) (op : QueueOp V)
    (hin : ∀ e ∈ deadlines [op], e ∈ l) : Heaped l (q.step op).heap := by
  cases op with
  | add now value expiration relative =>
    refine h.add now value expiration relative fun e he => hin e ?_
    simp [deadlines, he]
  | pop now => exact h.pop now
  | pack now => exact h.pack now
  | iter now => exact h.lazyPack now
  | len now => exact h
  | clear now => exact .clear l q

/-- What a run keeps. -/
theorem heaped_run (es : List (QueueOp V)) (h : Heaped l q.heap)
    (hin : ∀ e ∈ deadlines es, e ∈ l) : Heaped l (es.foldl ExpQueue.step q).heap := by
  induction es generalizing q with
  | nil => exact h
  | cons op es ih =>
    have hsplit : deadlines (op :: es) = deadlines [op] ++ deadlines es := by
      simp only [deadlines, ← List.filterMap_append, List.singleton_append]
    rw [hsplit] at hin
    exact ih (h.step op fun e he => hin e (List.mem_append_left _ he))
      fun e he => hin e (List.mem_append_right _ he)

/-- In a queue of spaced expirations a pop gives the value that expires first. -/
theorem Heaped.popsFirst (h : Heaped l q.heap) (hs : Spaced l) (now : ℚ) : PopsFirst q now := by
  unfold PopsFirst
  rcases hpop : q.pop now with ⟨value, dropped, rest⟩
  obtain ⟨taken, hvalue, -, hexpired, hentries, hempty⟩ := ExpQueue.pop_spec hpop
  cases value with
  | none =>
    have htaken : taken = none := by
      cases taken with
      | none => rfl
      | some i => cases hvalue
    intro i hi
    have hmem := hentries.mem_iff.mp hi
    rw [htaken, hempty htaken] at hmem
    exact hexpired i (by simpa using hmem)
  | some v =>
    have hloop : (ExpQueue.popLoop now (q.lazyPack now).2.heap.size (q.lazyPack now).2.heap).1 =
        some v := congrArg Prod.fst hpop
    obtain ⟨i, hi, hv, halive, hbefore⟩ := (popLoop_first (h.lazyPack now) rfl).2 v hloop
    have hmem := mem_lazyPack.1 hi
    refine ⟨i, hmem, hv, halive, fun j hj hjalive => ?_⟩
    exact (hbefore j (mem_lazyPack.2 hjalive hj) hjalive).notLater hs
      (h.among i (Array.mem_toList_iff.mp hmem)) (h.among j (Array.mem_toList_iff.mp hj))

/-- Where the expirations of the values that are added are spaced, a pop gives a live value that is
not later by a millisecond than any other, and none only where none is live. -/
theorem pop_first_of_spaced (maxSize : Option ℚ) (es : List (QueueOp V))
    (hs : Spaced (deadlines es)) (now : ℚ) :
    PopsFirst (es.foldl ExpQueue.step (.new maxSize)) now :=
  (heaped_run es (heaped_empty _) fun _ he => he).popsFirst hs now

theorem pop_first_three : PopsFirst ([.add 0 1 (some 3) false, .add 0 2 (some (5 / 2)) true,
    .add 1 3 none false].foldl ExpQueue.step (.new none)) 2 :=
  pop_first_of_spaced none ([.add 0 1 (some 3) false, .add 0 2 (some (5 / 2)) true,
    .add 1 3 none false] : List (QueueOp Nat)) (by decide +kernel) 2

/-- Along a path of the heap the expirations go down by 0.45 milliseconds: the first is 1.35
milliseconds after the last, and is popped. -/
theorem pop_late : ¬ PopsFirst ([.add 0 1 (some (100135 / 100000)) false,
    .add 0 2 (some (100090 / 100000)) false, .add 0 3 (some 5) false,
    .add 0 4 (some (100045 / 100000)) false, .add 0 5 (some 5) false, .add 0 6 (some 5) false,
    .add 0 7 (some 5) false, .add 0 8 (some 1) false].foldl ExpQueue.step
      (ExpQueue.new none : ExpQueue Nat)) 0 := by
  decide +kernel

end Feat.Common
