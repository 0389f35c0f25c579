import Mathlib.Tactic.Abel
import Mathlib.Algebra.Order.Group.Multiset
import Feat.Lib.Run
import Feat.Common.ExpQueue

/- What becomes of the values that are added to a queue. A value leaves it when it is popped, when
   it has expired and is given to `on_expire`, or when the queue is cleared, and what
   each operation takes it gives to one of these (`Accounted.step`). The exception is `add`: a
   value whose expiration has passed is neither stored nor given to `on_expire`. The result of this
   file is that all values are accounted for if and only if none is added so
   (`queue_accounted_iff`). -/
namespace Feat.Common
open Expiring Transition List

variable {V : Type}

/-! ## Operations and what they give away -/

/-- The time of an operation. -/
def QueueOp.now : QueueOp V → ℚ
  | .add now _ _ _ | .pop now | .pack now | .iter now | .len now | .clear now => now

/-- What an operation adds. -/
def QueueOp.item : QueueOp V → Option (Item ℚ V)
  | .add now value expiration relative => some ⟨deadline now expiration relative, value⟩
  | _ => none

/-- What an operation gives to `on_expire`. -/
def ExpQueue.expires (q : ExpQueue V) : QueueOp V → List (Item ℚ V)
  | .add now _ _ _ => (q.lazyPack now).1
  | .pop now => (q.pop now).2.1
  | .pack now => (q.pack now).1
  | .iter now => (q.iter now).2.1
  | .len _ | .clear _ => []

/-- What an operation returns as popped. -/
def ExpQueue.pops (q : ExpQueue V) : QueueOp V → Option V
  | .pop now => (q.pop now).1
  | _ => none

/-- What an operation clears. -/
def ExpQueue.clears (q : ExpQueue V) : QueueOp V → List (Item ℚ V)
  | .clear _ => q.heap.toList
  | _ => []

/-- A queue, the time, and what has been added, popped, given to `on_expire` and cleared. -/
structure Ledger (V : Type) where
  queue : ExpQueue V
  clock : ℚ
  added : List (Item ℚ V)
  popped : List V
  expired : List (Item ℚ V)
  cleared : List (Item ℚ V)

namespace Ledger

/-- A new queue. -/
def new (maxSize : Option ℚ) (clock : ℚ) : Ledger V := ⟨.new maxSize, clock, [], [], [], []⟩

/-- One operation, not before the last one. -/
def step (s : Ledger V) (op : QueueOp V) : Option (Ledger V) :=
  if s.clock ≤ op.now then
    some {
      queue := s.queue.step op
      clock := op.now
      added := s.added ++ op.item.toList
      popped := s.popped ++ (s.queue.pops op).toList
      expired := s.expired ++ s.queue.expires op
      cleared := s.cleared ++ s.queue.clears op }
  else none

/-! ## The properties -/

/-- Each value that was added is in the queue, was popped, was given to `on_expire` after it had
expired, or was cleared. -/
def Accounted (s : Ledger V) : Prop :=
  ∃ taken : List (Item ℚ V), s.popped = taken.map Item.value ∧
    s.added.Perm (s.queue.heap.toList ++ taken ++ s.expired ++ s.cleared) ∧
    ∀ i ∈ s.expired, i.alive s.clock = false

/-- What is added has not expired. -/
def InTime (_ : Ledger V) (op : QueueOp V) : Prop := ∀ i ∈ op.item, i.alive op.now = true

instance (s : Ledger V) (op : QueueOp V) : Decidable (InTime s op) := by
  unfold InTime
  infer_instance

/-! ## One operation -/

variable {s t : Ledger V} {op : QueueOp V}

/-- An operation keeps what it has, gives away the rest, and loses at most what it was to add. -/
structure Moves (q : ExpQueue V) (op : QueueOp V) (taken : List (Item ℚ V)) : Prop where
  popped : (q.pops op).toList = taken.map Item.value
  entries : (q.heap.toList ++ op.item.toList).Perm ((q.step op).heap.toList ++ taken ++
    q.expires op ++ q.clears op ++ op.item.toList.filter fun i => !i.alive op.now)
  expired : ∀ i ∈ q.expires op, i.alive op.now = false

/-- An operation that only packs. -/
theorem Moves.packing {q : ExpQueue V} (hitem : op.item = none) (hpops : q.pops op = none)
    (hclears : q.clears op = [])
    (hentries : q.heap.toList.Perm (q.expires op ++ (q.step op).heap.toList))
    (hexpired : ∀ i ∈ q.expires op, i.alive op.now = false) : Moves q op [] := by
  refine ⟨by rw [hpops]; rfl, ?_, hexpired⟩
  rw [hitem, hclears]
  simpa using hentries.trans List.perm_append_comm

theorem moves (q : ExpQueue V) (op : QueueOp V) : ∃ taken, Moves q op taken := by
  cases op with
  | add now value expiration relative =>
    obtain ⟨hperm, hexpired⟩ := ExpQueue.lazyPack_spec q now
    let item : Item ℚ V := ⟨deadline now expiration relative, value⟩
    refine ⟨[], rfl, ?_, hexpired⟩
    simp only [ExpQueue.step, ExpQueue.add, ExpQueue.expires, ExpQueue.clears, QueueOp.item,
      QueueOp.now, Option.toList_some, List.append_nil]
    split
    · rename_i halive
      have hpush := Heap.heappush_perm ExpItem.lt (q.lazyPack now).2.heap item
      -- the value is pushed on what is left
      have hstored : (q.heap.toList ++ [item]).Perm
          ((Heap.heappush ExpItem.lt (q.lazyPack now).2.heap item).toList ++ (q.lazyPack now).1) :=
        calc q.heap.toList ++ [item]
          _ ~ ((q.lazyPack now).1 ++ (q.lazyPack now).2.heap.toList) ++ [item] := hperm.append_right _
          _ ~ item :: ((q.lazyPack now).2.heap.toList ++ (q.lazyPack now).1) :=
            (List.perm_append_singleton _ _).trans (.cons _ List.perm_append_comm)
          _ ~ _ := (hpush.symm.append_right _)
      simpa [List.filter_singleton, halive] using hstored
    · rename_i hover
      have hkept : (q.heap.toList ++ [item]).Perm
          ((q.lazyPack now).2.heap.toList ++ ((q.lazyPack now).1 ++ [item])) := by
        rw [← List.append_assoc]
        exact (hperm.trans List.perm_append_comm).append_right _
      simpa [List.filter_singleton, Bool.eq_false_iff.mpr hover] using hkept
  | pop now =>
    rcases hpop : q.pop now with ⟨value, dropped, rest⟩
    obtain ⟨taken, hvalue, -, hexpired, hentries, -⟩ := ExpQueue.pop_spec hpop
    refine ⟨taken.toList, ?_, ?_, ?_⟩
    · simp only [ExpQueue.pops, hpop, hvalue]
      cases taken <;> rfl
    · simp only [ExpQueue.step, ExpQueue.expires, ExpQueue.clears, QueueOp.item, hpop]
      simp only [Option.toList_none, List.filter_nil, List.append_nil]
      exact hentries.trans (List.perm_append_comm.trans (List.perm_append_comm.append_right _))
    · simpa only [ExpQueue.expires, hpop, QueueOp.now] using hexpired
  | pack now =>
    obtain ⟨hperm, hexpired⟩ := ExpQueue.pack_spec q now
    exact ⟨[], .packing rfl rfl rfl hperm hexpired⟩
  | iter now =>
    obtain ⟨hperm, hexpired⟩ := ExpQueue.lazyPack_spec q now
    exact ⟨[], .packing rfl rfl rfl hperm hexpired⟩
  | len now => exact ⟨[], .packing rfl rfl rfl (.refl _) fun i hi => by cases hi⟩
  | clear now =>
    refine ⟨[], rfl, ?_, fun i hi => by cases hi⟩
    simp [ExpQueue.step, ExpQueue.clear, ExpQueue.expires, ExpQueue.clears, QueueOp.item]

/-- What an operation loses is what it was to add too late. -/
theorem lost_eq_nil (horderly : InTime s op) :
    (op.item.toList.filter fun i => !i.alive op.now) = [] := by
  refine List.filter_eq_nil_iff.mpr fun i hi => ?_
  simpa using horderly i (by simpa using hi)

/-- Where nothing is added too late, all values stay accounted for. -/
theorem Accounted.step (h : Accounted s) (horderly : InTime s op)
    (hstep : Ledger.step s op = some t) : Accounted t := by
  obtain ⟨taken, hpopped, hentries, hexpired⟩ := h
  obtain ⟨more, hmore, hmoves, hover⟩ := moves s.queue op
  unfold Ledger.step at hstep
  split at hstep
  · rename_i hnow
    obtain rfl := Option.some.inj hstep
    rw [lost_eq_nil horderly, List.append_nil] at hmoves
    refine ⟨taken ++ more, by simp [hpopped, hmore], ?_, fun i hi => ?_⟩
    · simp only [← Multiset.coe_eq_coe, ← Multiset.coe_add] at hentries hmoves ⊢
      calc (s.added : Multiset (Item ℚ V)) + op.item.toList
        _ = (s.queue.heap.toList + op.item.toList) + taken + s.expired + s.cleared := by
          rw [hentries]
          abel
        _ = _ := by
          rw [hmoves]
          abel
    · obtain hi | hi := List.mem_append.mp hi
      · have hdead := hexpired i hi
        cases halive : i.alive op.now with
        | false => rfl
        | true => rw [Item.alive_mono hnow halive] at hdead; cases hdead
      · exact hover i hi
  · cases hstep

/-- A value that is added too late is not accounted for. -/
theorem Accounted.lost (h : Accounted s) (hwrong : ¬ InTime s op)
    (hstep : Ledger.step s op = some t) : ¬ Accounted t := by
  obtain ⟨taken, hpopped, hentries, -⟩ := h
  obtain ⟨more, hmore, hmoves, -⟩ := moves s.queue op
  have hlost : 0 < (op.item.toList.filter fun i => !i.alive op.now).length := by
    refine List.length_pos_iff.mpr fun hnil => hwrong fun i hi => ?_
    simpa using List.filter_eq_nil_iff.mp hnil i (by simpa using hi)
  unfold Ledger.step at hstep
  split at hstep
  · obtain rfl := Option.some.inj hstep
    rintro ⟨taken', hpopped', hentries', -⟩
    -- there is one value more than there are places for
    have hlen := hentries.length_eq
    have hlen' := hentries'.length_eq
    have hmoved := hmoves.length_eq
    have hpops := congrArg List.length hpopped
    have hpops' := congrArg List.length hpopped'
    have hmores := congrArg List.length hmore
    simp only [List.length_append, List.length_map] at hlen hlen' hmoved hpops hpops' hmores
    omega
  · cases hstep

theorem accounted_new (maxSize : Option ℚ) (clock : ℚ) :
    Accounted (.new maxSize clock : Ledger V) :=
  ⟨[], rfl, .refl _, fun i hi => by cases hi⟩

/-- In a run from a new queue each value that was added is at any time in the queue, was popped,
was given to `on_expire` after it had expired, or was cleared, if and only if no value is added
whose expiration has passed. -/
theorem queue_accounted_iff (maxSize : Option ℚ) (clock : ℚ) (es : List (QueueOp V)) (s : Ledger V) :
    Run (Guarded InTime (Defined step)) (.new maxSize clock) es s ↔
      Run (Ending Accounted (Defined step)) (.new maxSize clock) es s :=
  run_guarded_iff (fun _ h => h) (fun _ _ _ => Accounted.step) (fun _ _ _ => Accounted.lost)
    (accounted_new maxSize clock)

/-- A value that is added after its expiration is neither stored nor given to `on_expire`. -/
theorem late_value_vanishes :
    ∃ (es : List (QueueOp Nat)) (s : Ledger Nat),
      Run (Defined step) (.new none 0) es s ∧ ¬ Accounted s := by
  let late : QueueOp Nat := .add 5 1 (some 3) false
  have hwrong : ¬ InTime (.new none 0) late := fun h => by
    have halive := h ⟨some 3, 1⟩ rfl
    revert halive
    decide +kernel
  exact ⟨[late], _, .cons rfl (.nil _), (accounted_new none 0).lost hwrong rfl⟩

end Ledger
end Feat.Common
