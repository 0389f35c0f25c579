import Mathlib.Data.Rat.Floor
import Feat.Lib.Heap
import Feat.Common.ExpDict

/- A queue whose entries expire (`feat.common.container.ExpQueue`), which gives the entry
   that expires first.

   Entries are compared to a millisecond, which is no order. So nothing is said here of
   which entry comes first: `pop_spec` and `add_spec` say that no entry is
   lost, but for those that have expired. These are given with the result, for the
   record. -/
namespace Feat.Common
open Expiring

variable {V : Type}

/-- `PRECISION`. -/
def precision : ℚ := 1000

/-- `int(round(x))`: halves are rounded away from zero. -/
def intRound (x : ℚ) : Int := if 0 ≤ x then ⌊x + 1 / 2⌋ else -⌊-x + 1 / 2⌋

/-- `ExpItem.__cmp__`. -/
def ExpItem.cmp (i j : Item ℚ V) : Int :=
  match i.exp, j.exp with
  | none, none => 0
  | none, some _ => 1
  | some _, none => -1
  | some a, some b => intRound (a * precision - b * precision)

/-- `<` of items. -/
def ExpItem.lt (i j : Item ℚ V) : Bool := ExpItem.cmp i j < 0

structure ExpQueue (V : Type) where
  heap : Array (Item ℚ V)
  maxSize : RunningAverage
  lastPack : ℚ

namespace ExpQueue

/-- `ExpQueue(time_provider, max_size)`. -/
def new (maxSize : Option ℚ) : ExpQueue V := ⟨#[], ⟨maxSize.getD defaultMaxSize, 0, 0⟩, 0⟩

/-- `clear`. -/
def clear (q : ExpQueue V) : ExpQueue V := { q with heap := #[] }

/-- `_pack`. -/
def pack (q : ExpQueue V) (now : ℚ) : List (Item ℚ V) × ExpQueue V :=
  let live := q.heap.toList.filter (Item.alive now)
  (q.heap.toList.filter fun i => !i.alive now,
    { heap := Heap.heapify ExpItem.lt live.toArray
      lastPack := now
      maxSize := q.maxSize.addPoint live.length })

/-- `_lazy_pack`. -/
def lazyPack (q : ExpQueue V) (now : ℚ) : List (Item ℚ V) × ExpQueue V :=
  if (q.heap.size : ℚ) > q.maxSize.getValue * (5 / 4) then
    if now - q.lastPack ≥ 1 / maxLazyPackPerSecond then q.pack now else ([], q)
  else ([], q)

/-- `add`. -/
def add (q : ExpQueue V) (now : ℚ) (value : V) (expiration : Option ℚ) (relative : Bool) :
    List (Item ℚ V) × ExpQueue V :=
  let (dropped, q) := q.lazyPack now
  let item : Item ℚ V := ⟨deadline now expiration relative, value⟩
  if item.alive now then (dropped, { q with heap := Heap.heappush ExpItem.lt q.heap item })
  else (dropped ++ [item], q)

/-- The loop of `pop`. -/
def popLoop (now : ℚ) : Nat → Array (Item ℚ V) →
    Option V × List (Item ℚ V) × Array (Item ℚ V)
  | 0, heap => (none, [], heap)
  | fuel + 1, heap =>
    match Heap.heappop ExpItem.lt heap with
    | none => (none, [], heap)
    | some (item, rest) =>
      if item.alive now then (some item.value, [], rest)
      else
        let (value, dropped, rest) := popLoop now fuel rest
        (value, item :: dropped, rest)

/-- `pop`: no value is `Empty`. -/
def pop (q : ExpQueue V) (now : ℚ) : Option V × List (Item ℚ V) × ExpQueue V :=
  let (packed, q) := q.lazyPack now
  let (value, dropped, heap) := popLoop now q.heap.size q.heap
  (value, packed ++ dropped, { q with heap := heap })

/-! ## No entry is lost -/

variable {q : ExpQueue V} {now : ℚ}

theorem pack_spec (q : ExpQueue V) (now : ℚ) :
    q.heap.toList.Perm ((q.pack now).1 ++ (q.pack now).2.heap.toList) ∧
      ∀ i ∈ (q.pack now).1, i.alive now = false := by
  unfold pack
  dsimp only
  have hlive := Heap.heapify_perm ExpItem.lt (q.heap.toList.filter (Item.alive now)).toArray
  have hsplit := (List.filter_append_perm (fun i => !i.alive now) q.heap.toList).symm
  simp only [Bool.not_not] at hsplit
  refine ⟨hsplit.trans (.append_left _ hlive.symm), fun i hi => ?_⟩
  simpa using (List.mem_filter.mp hi).2

theorem lazyPack_spec (q : ExpQueue V) (now : ℚ) :
    q.heap.toList.Perm ((q.lazyPack now).1 ++ (q.lazyPack now).2.heap.toList) ∧
      ∀ i ∈ (q.lazyPack now).1, i.alive now = false := by
  unfold lazyPack
  split
  · split
    · exact pack_spec q now
    · exact ⟨.refl _, fun i hi => by cases hi⟩
  · exact ⟨.refl _, fun i hi => by cases hi⟩

/-- What a pop takes, when it leaves `rest` of the entries `l` and drops `dropped`. -/
structure Popped (now : ℚ) (l : List (Item ℚ V)) (value : Option V)
    (dropped rest : List (Item ℚ V)) (taken : Option (Item ℚ V)) : Prop where
  value : value = taken.map Item.value
  alive : ∀ i, taken = some i → i.alive now = true
  expired : ∀ i ∈ dropped, i.alive now = false
  entries : l.Perm (dropped ++ (taken.toList ++ rest))
  empty : taken = none → rest = []

theorem popLoop_spec {fuel : Nat} {heap rest : Array (Item ℚ V)} {value : Option V}
    {dropped : List (Item ℚ V)} (h : popLoop now fuel heap = (value, dropped, rest))
    (hfuel : heap.size ≤ fuel) :
    ∃ taken, Popped now heap.toList value dropped rest.toList taken := by
  have hempty : ∀ heap : Array (Item ℚ V), heap.toList = [] →
      Popped now heap.toList none [] heap.toList none := fun heap hnil =>
    ⟨rfl, fun i hi => by (cases hi), fun i hi => by (cases hi), .refl _, fun _ => hnil⟩
  induction fuel generalizing heap dropped with
  | zero =>
    cases h
    exact ⟨none, hempty _ (List.length_eq_zero_iff.mp (by simpa using hfuel))⟩
  | succ fuel ih =>
    unfold popLoop at h
    split at h
    · rename_i hpop
      cases h
      exact ⟨none, hempty _ (Heap.heappop_none ExpItem.lt hpop)⟩
    · rename_i item left hpop
      have hperm := Heap.heappop_perm ExpItem.lt hpop
      split at h
      · rename_i halive
        cases h
        refine ⟨some item, rfl, fun i hi => ?_, fun i hi => ?_, hperm, fun hnone => ?_⟩
        · cases hi
          exact halive
        · cases hi
        · cases hnone
      · rename_i hover
        have hsize : left.size ≤ fuel := by
          have hlen := hperm.length_eq
          simp only [Array.length_toList, List.length_cons] at hlen
          omega
        rcases hrec : popLoop now fuel left with ⟨v, dropped', rest'⟩
        rw [hrec] at h
        cases h
        obtain ⟨taken, hv, halive, hexpired, hentries, hrest⟩ := ih hrec hsize
        refine ⟨taken, hv, halive, fun i hi => ?_, hperm.trans (.cons item hentries), hrest⟩
        obtain rfl | hi := List.mem_cons.mp hi
        · simpa using hover
        · exact hexpired i hi

/-- What `pop` gives is a live entry, and what it drops has expired; when it gives nothing
    there is nothing left. -/
theorem pop_spec {value : Option V} {dropped : List (Item ℚ V)} {rest : ExpQueue V}
    (h : q.pop now = (value, dropped, rest)) :
    ∃ taken, Popped now q.heap.toList value dropped rest.heap.toList taken := by
  obtain ⟨hperm, hpacked⟩ := lazyPack_spec q now
  unfold pop at h
  dsimp only at h
  rcases hloop : popLoop now (q.lazyPack now).2.heap.size (q.lazyPack now).2.heap with
    ⟨value', dropped', heap⟩
  rw [hloop] at h
  cases h
  obtain ⟨taken, hv, halive, hexpired, hentries, hrest⟩ := popLoop_spec hloop (le_refl _)
  refine ⟨taken, hv, halive, fun i hi => ?_, ?_, hrest⟩
  · exact (List.mem_append.mp hi).elim (hpacked i) (hexpired i)
  · rw [List.append_assoc]
    exact hperm.trans (.append_left _ hentries)

/-- A value is stored, or has expired already. -/
theorem add_spec {value : V} {expiration : Option ℚ} {relative : Bool}
    {dropped : List (Item ℚ V)} {r : ExpQueue V}
    (h : q.add now value expiration relative = (dropped, r)) :
    (∀ i ∈ dropped, i.alive now = false) ∧
      (⟨deadline now expiration relative, value⟩ :: q.heap.toList).Perm
        (dropped ++ r.heap.toList) := by
  obtain ⟨hperm, hpacked⟩ := lazyPack_spec q now
  unfold add at h
  dsimp only at h
  split at h
  · cases h
    refine ⟨hpacked, (List.Perm.cons _ hperm).trans ?_⟩
    exact List.perm_middle.symm.trans (.append_left _ (Heap.heappush_perm _ _ _).symm)
  · rename_i hover
    cases h
    refine ⟨?_, ?_⟩
    · intro i hi
      obtain hi | hi := List.mem_append.mp hi
      · exact hpacked i hi
      · rw [List.mem_singleton.mp hi]
        simpa using hover
    · rw [List.append_assoc]
      exact (List.Perm.cons _ hperm).trans List.perm_middle.symm

/-! ## Operations -/

/-- `__iter__`, with what it packs. -/
def iter (q : ExpQueue V) (now : ℚ) : List V × List (Item ℚ V) × ExpQueue V :=
  let (packed, q) := q.lazyPack now
  ((q.heap.toList.filter (Item.alive now)).map Item.value, packed, q)

/-- `__len__`. -/
def len (q : ExpQueue V) (now : ℚ) : Nat := (q.heap.toList.filter (Item.alive now)).length

end ExpQueue

/-- The operations of a queue, with the time they are done at. -/
inductive QueueOp (V : Type) where
  | add (now : ℚ) (value : V) (expiration : Option ℚ) (relative : Bool)
  | pop (now : ℚ)
  | pack (now : ℚ)
  | iter (now : ℚ)
  | len (now : ℚ)
  | clear (now : ℚ)
  deriving DecidableEq

/-- The queue after an operation. -/
def ExpQueue.step (q : ExpQueue V) : QueueOp V → ExpQueue V
  | .add now value expiration relative => (q.add now value expiration relative).2
  | .pop now => (q.pop now).2.2
  | .pack now => (q.pack now).2
  | .iter now => (q.iter now).2.2
  | .len _ => q
  | .clear _ => q.clear

end Feat.Common
