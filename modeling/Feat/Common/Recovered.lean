import Feat.Common.ExpQueue

/- Snapshots of the expiring containers, and what is recovered from them.

   `ExpDict.recover` rebuilds every field, so that the recovered dictionary has the same
   entries, rounded to the millisecond, and answers alike. Its running average starts
   again and it has not packed yet, so the two do not pack at the same moments; only
   `pop` can tell, which answers None where nothing is stored (`answers_alike_iff`).

   `ExpQueue.recover` rebuilds `_time`, `_heap` and `_last_pack` of an object made by
   `__new__`. It sets neither `_max_size` nor `_on_expire`, and all that packs reads
   `_max_size`: adding, popping, iterating and packing raise an `AttributeError`. What is
   left are the length and `clear` (`queue_answers_alike_iff`). -/
namespace Feat.Common
open Hash Expiring

variable {κ V : Type} [DecidableEq κ]

/-! ## Items -/

/-- `ExpItem.pri`. -/
def ExpItem.pri (i : Item ℚ V) : Option Int := i.exp.map fun exp => intRound (exp * precision)

/-- `ExpItem.snapshot`. -/
def ExpItem.snapshot (i : Item ℚ V) : Option Int × V := (ExpItem.pri i, i.value)

/-- `ExpItem.restore`. -/
def ExpItem.restore (snapshot : Option Int × V) : Item ℚ V :=
  ⟨snapshot.1.map fun (pri : Int) => (pri : ℚ) / precision, snapshot.2⟩

/-- An item with its expiration rounded to the millisecond. -/
def ExpItem.round (i : Item ℚ V) : Item ℚ V :=
  { i with exp := i.exp.map fun exp => intRound (exp * precision) / precision }

/-- A snapshot rounds the expiration, and nothing else. -/
theorem ExpItem.restore_snapshot (i : Item ℚ V) :
    ExpItem.restore (ExpItem.snapshot i) = ExpItem.round i := by
  unfold restore snapshot pri round
  rw [Option.map_map]
  rfl

/-! ## Dictionaries -/

namespace ExpDict
variable (order order' : HashOrder κ)

/-- What `snapshot` gives but for the time provider: the running average as it is, and the
    snapshots of the items. -/
def snapshot (d : ExpDict κ V) : ℚ × Dict κ (Option Int × Value V) :=
  (d.maxSize.getValue,
    Dict.ofList ((Dict.items order d.items).map fun p => (p.1, ExpItem.snapshot p.2)))

/-- The object that `prepare` makes, after `recover`. -/
def recover (snapshot : ℚ × Dict κ (Option Int × Value V)) : ExpDict κ V where
  items := Dict.ofList ((Dict.items order snapshot.2).map fun p => (p.1, ExpItem.restore p.2))
  maxSize := ⟨snapshot.1, 0, 0⟩
  lastPack := 0

/-- The dictionary with its expirations rounded. -/
def rounded (d : ExpDict κ V) : ExpDict κ V := { d with items := Dict.map ExpItem.round d.items }

/-- Two dictionaries answer a sequence of operations, each at its time, alike. -/
def AnswersAlike : ExpDict κ V → ExpDict κ V → List (ℚ × Op κ V) → Prop
  | _, _, [] => True
  | d, r, (now, op) :: ops =>
    (d.step order now op).2.Same (r.step order' now op).2 ∧
      AnswersAlike (d.step order now op).1 (r.step order' now op).1 ops

/-- Whether something is stored once the dictionary was packed if need be. -/
def Stores (d : ExpDict κ V) (now : ℚ) : Prop := (d.lazyPack order now).items.keys ≠ []

/-- What is popped is popped with the default None, or from dictionaries of which both store
    something or neither does. -/
def PopsAlike (now : ℚ) (d r : ExpDict κ V) : Op κ V → Prop
  | .pop _ default => default = some none ∨ (d.Stores order now ↔ r.Stores order' now)
  | _ => True

/-- So it is at all operations. -/
def AllPopAlike : ExpDict κ V → ExpDict κ V → List (ℚ × Op κ V) → Prop
  | _, _, [] => True
  | d, r, (now, op) :: ops =>
    PopsAlike order order' now d r op ∧
      AllPopAlike (d.step order now op).1 (r.step order' now op).1 ops

instance decidablePopsAlike [DecidableEq V] (now : ℚ) (d r : ExpDict κ V) :
    (op : Op κ V) → Decidable (PopsAlike order order' now d r op)
  | .pop _ _ => by
    unfold PopsAlike Stores
    infer_instance
  | .set _ _ _ _ | .setItem _ _ | .get _ _ | .getExpiration _ | .getItem _ | .remove _
  | .delItem _ | .contains _ | .keys | .values | .iteritems | .len | .pack | .clear =>
    inferInstanceAs (Decidable True)

instance decidableAllPopAlike [DecidableEq V] :
    (ops : List (ℚ × Op κ V)) → (d r : ExpDict κ V) →
      Decidable (AllPopAlike order order' d r ops)
  | [], _, _ => inferInstanceAs (Decidable True)
  | (now, op) :: ops, d, r =>
    have := decidableAllPopAlike ops (d.step order now op).1 (r.step order' now op).1
    inferInstanceAs (Decidable (PopsAlike order order' now d r op ∧ _))

variable {order order'} {d r : ExpDict κ V} {now : ℚ}

/-- Two dictionaries that have the same entries live. -/
def LiveAlike (now : ℚ) (d r : ExpDict κ V) : Prop :=
  ∀ key, live now d.items key = live now r.items key

theorem LiveAlike.mono {now' : ℚ} (h : LiveAlike now d r) (hnow : now ≤ now') :
    LiveAlike now' d r := by
  intro key
  rw [live_later hnow, live_later hnow, h key]

theorem stores_of_live {key : κ} {item : ExpItem V} (h : live now d.items key = some item) :
    d.Stores order now := by
  intro hempty
  rw [← live_lazyPack order d now key, not_live_of_empty hempty] at h
  cases h

omit [DecidableEq κ] in
theorem same_comm (r r' : Result κ V) : r.Same r' ↔ r'.Same r := by
  cases r <;> cases r' <;> simp [Result.Same, List.perm_comm, eq_comm]

omit [DecidableEq κ] in
/-- None for a missing key is what `pop` gives on an empty dictionary. -/
theorem missing_none {key : κ} {default : Option (Value V)} :
    Result.Same ((none : Option (Result κ V)).getD (missing key default)) .none ↔
      default = some none := by
  rcases default with _ | _ | v
  · simp [missing, Result.Same, Result.none]
  · simp [missing, Result.Same, Result.none]
  · simp [missing, Result.Same, Result.none]

/-- A lookup finds the same item in both, and leaves the same entries. -/
theorem getItem_alike (order order' : HashOrder κ) (h : LiveAlike now d r) (key : κ) :
    ∃ d' r', d.getItem order now key = (d', live now r.items key) ∧
      r.getItem order' now key = (r', live now r.items key) ∧ LiveAlike now d' r' := by
  obtain ⟨d', hd, hkeep⟩ := getItem_spec order d now key
  obtain ⟨r', hr, hkeep'⟩ := getItem_spec order' r now key
  refine ⟨d', r', by rw [hd, h key], hr, fun k => ?_⟩
  rw [hkeep, hkeep', h k]

/-- Whatever is packed, an operation leaves the same entries, and its answers are the same if
    and only if it pops alike. -/
theorem step_alike (order order' : HashOrder κ) (h : LiveAlike now d r) (op : Op κ V) :
    LiveAlike now (d.step order now op).1 (r.step order' now op).1 ∧
      ((d.step order now op).2.Same (r.step order' now op).2 ↔
        PopsAlike order order' now d r op) := by
  have hpacked : ∀ k, live now (d.lazyPack order now).items k =
      live now (r.lazyPack order' now).items k := fun k => by
    rw [live_lazyPack, live_lazyPack, h k]
  cases op with
  | set key value expiration relative =>
    refine ⟨?_, fun _ => trivial, fun _ => .refl _⟩
    unfold step set
    dsimp only
    cases deadline now expiration relative with
    | none => exact agree_insert _ hpacked
    | some exp =>
      dsimp only
      split
      · exact hpacked
      · exact agree_insert _ hpacked
  | setItem key value => exact ⟨agree_insert _ hpacked, fun _ => trivial, fun _ => .refl _⟩
  | get key default =>
    obtain ⟨d', r', hd, hr, hsame⟩ := getItem_alike order order' h key
    simp only [step, hd, hr]
    cases live now r.items key <;> exact ⟨hsame, fun _ => trivial, fun _ => .refl _⟩
  | getExpiration key =>
    obtain ⟨d', r', hd, hr, hsame⟩ := getItem_alike order order' h key
    simp only [step, hd, hr]
    cases live now r.items key <;> exact ⟨hsame, fun _ => trivial, fun _ => .refl _⟩
  | getItem key =>
    obtain ⟨d', r', hd, hr, hsame⟩ := getItem_alike order order' h key
    simp only [step, hd, hr]
    cases live now r.items key <;> exact ⟨hsame, fun _ => trivial, fun _ => .refl _⟩
  | contains key =>
    obtain ⟨d', r', hd, hr, hsame⟩ := getItem_alike order order' h key
    simp only [step, hd, hr]
    exact ⟨hsame, fun _ => trivial, fun _ => .refl _⟩
  | delItem key =>
    obtain ⟨d', r', hd, hr, hsame⟩ := getItem_alike order order' h key
    simp only [step, hd, hr]
    cases live now r.items key with
    | none => exact ⟨hsame, fun _ => trivial, fun _ => .refl _⟩
    | some item => exact ⟨agree_erase hsame, fun _ => trivial, fun _ => .refl _⟩
  | remove key =>
    obtain ⟨hresult, hstate⟩ := remove_spec order d now key
    obtain ⟨hresult', hstate'⟩ := remove_spec order' r now key
    refine ⟨fun k => ?_, fun _ => trivial, fun _ => ?_⟩
    · show live now (d.remove order now key).1.items k = _
      rw [hstate, agree_erase h]
      exact (hstate' k).symm
    · show (d.remove order now key).2.Same (r.remove order' now key).2
      rw [hresult, hresult', h key]
      exact .refl _
  | pop key default =>
    obtain ⟨hresult, hstate⟩ := pop_spec order d now key default
    obtain ⟨hresult', hstate'⟩ := pop_spec order' r now key default
    refine ⟨fun k => ?_, ?_⟩
    · show live now (d.pop order now key default).1.items k = _
      rw [hstate, agree_erase h]
      exact (hstate' k).symm
    · show (d.pop order now key default).2.Same (r.pop order' now key default).2 ↔ _
      rw [hresult, hresult', h key]
      cases hkey : live now r.items key with
      | some item =>
        -- both store the item
        have hd : d.Stores order now := stores_of_live ((h key).trans hkey)
        have hr : r.Stores order' now := stores_of_live hkey
        rw [if_neg hd, if_neg hr]
        exact ⟨fun _ => .inr (iff_of_true hd hr), fun _ => .refl _⟩
      | none =>
        by_cases hd : d.Stores order now
        · by_cases hr : r.Stores order' now
          · rw [if_neg hd, if_neg hr]
            exact ⟨fun _ => .inr (iff_of_true hd hr), fun _ => .refl _⟩
          · rw [if_neg hd, if_pos (not_not.mp hr)]
            exact missing_none.trans (by simp [PopsAlike, hd, hr])
        · by_cases hr : r.Stores order' now
          · rw [if_pos (not_not.mp hd), if_neg hr]
            exact (same_comm _ _).trans (missing_none.trans (by simp [PopsAlike, hd, hr]))
          · rw [if_pos (not_not.mp hd), if_pos (not_not.mp hr)]
            exact ⟨fun _ => .inr (iff_of_false hd hr), fun _ => .refl _⟩
  | keys =>
    exact ⟨hpacked, fun _ => trivial, fun _ => (liveItems_perm hpacked).map _⟩
  | values =>
    exact ⟨hpacked, fun _ => trivial, fun _ => (liveItems_perm hpacked).map _⟩
  | iteritems =>
    exact ⟨hpacked, fun _ => trivial, fun _ => (liveItems_perm hpacked).map _⟩
  | len =>
    exact ⟨h, fun _ => trivial, fun _ => congrArg Result.number (liveItems_perm h).length_eq⟩
  | pack =>
    refine ⟨fun k => ?_, fun _ => trivial, fun _ => .refl _⟩
    show live now (purge order now d.items) k = live now (purge order' now r.items) k
    rw [live_purge (le_refl now), live_purge (le_refl now), h k]
  | clear => exact ⟨fun _ => rfl, fun _ => trivial, fun _ => .refl _⟩

/-- Over a sequence of operations, with a clock that does not go back. -/
theorem all_alike {ops : List (ℚ × Op κ V)} (hclock : (ops.map Prod.fst).Pairwise (· ≤ ·))
    (h : ∀ p ∈ ops, LiveAlike p.1 d r) :
    AnswersAlike order order' d r ops ↔ AllPopAlike order order' d r ops := by
  induction ops generalizing d r with
  | nil => exact Iff.rfl
  | cons p ops ih =>
    obtain ⟨now, op⟩ := p
    rw [List.map_cons, List.pairwise_cons] at hclock
    obtain ⟨hleft, hsame⟩ := step_alike order order' (h _ List.mem_cons_self) op
    have hrest := ih hclock.2 fun q hq => hleft.mono (hclock.1 _ (List.mem_map_of_mem hq))
    exact and_congr hsame hrest

/-- The entries of a table that is rebuilt from its pairs. -/
theorem lookup_rebuilt {α β : Type} (f : α → β) (t : Dict κ α) (key : κ) :
    (Dict.ofList ((Dict.items order t).map fun p => (p.1, f p.2))).lookup key =
      (t.lookup key).map f := by
  cases hkey : t.lookup key with
  | some a =>
    have hmem : (key, f a) ∈ (Dict.items order t).map fun p => (p.1, f p.2) :=
      List.mem_map_of_mem (f := fun p : κ × α => (p.1, f p.2)) (Dict.mem_items.mpr hkey)
    obtain ⟨b, hb⟩ := Dict.lookup_ofList_of_mem hmem
    obtain ⟨⟨k, a'⟩, hin, heq⟩ := List.mem_map.mp (Dict.mem_of_lookup_ofList hb)
    cases heq
    rw [Dict.mem_items.mp hin] at hkey
    rw [hb, Option.some.inj hkey]
    rfl
  | none =>
    cases hb : (Dict.ofList ((Dict.items order t).map fun p => (p.1, f p.2))).lookup key with
    | none => rfl
    | some b =>
      obtain ⟨⟨k, a'⟩, hin, heq⟩ := List.mem_map.mp (Dict.mem_of_lookup_ofList hb)
      cases heq
      rw [Dict.mem_items.mp hin] at hkey
      cases hkey

/-- What is recovered has the entries of the dictionary, rounded. -/
theorem lookup_recover (d : ExpDict κ V) (key : κ) :
    (recover order' (d.snapshot order)).items.lookup key = d.rounded.items.lookup key := by
  unfold recover snapshot rounded
  dsimp only
  rw [lookup_rebuilt, lookup_rebuilt, Dict.lookup_map, Option.map_map]
  congr 1
  funext i
  exact ExpItem.restore_snapshot i

/-- What is live is what is stored, at any time. -/
theorem liveAlike_recover (d : ExpDict κ V) (now : ℚ) :
    LiveAlike now d.rounded (recover order' (d.snapshot order)) := by
  intro key
  unfold live
  rw [lookup_recover]

end ExpDict

/-! ## Queues -/

/-- A queue as an object: `_max_size`, which only `__init__` sets, as it does `_on_expire`, may
    be missing. -/
structure QueueObject (V : Type) where
  heap : Array (Item ℚ V)
  maxSize : Option RunningAverage
  lastPack : ℚ

/-- What an operation of a queue returns or raises. -/
inductive Answer (V : Type) where
  | none
  | value (v : V)
  | values (vs : List V)
  | number (n : Nat)
  | empty
  | attributeError

/-- What an operation returns or raises on a queue that was initialised. -/
def ExpQueue.answer (q : ExpQueue V) : QueueOp V → Answer V
  | .add _ _ _ _ | .pack _ | .clear _ => .none
  | .pop now => match (q.pop now).1 with
    | none => .empty
    | some v => .value v
  | .iter now => .values (q.iter now).1
  | .len now => .number (q.len now)

/-- `snapshot`, but for the time provider. -/
def ExpQueue.snapshot (q : ExpQueue V) (now : ℚ) : List (Option Int × V) :=
  (q.heap.toList.filter (Item.alive now)).map ExpItem.snapshot

/-- The queue when what has expired was packed, with the other expirations rounded. -/
def ExpQueue.rounded (q : ExpQueue V) (now : ℚ) : ExpQueue V :=
  let live := q.heap.toList.filter (Item.alive now)
  { q with heap := Heap.heapify ExpItem.lt (live.map ExpItem.round).toArray }

namespace QueueObject

/-- A queue that was initialised. -/
def initialised (q : ExpQueue V) : QueueObject V := ⟨q.heap, some q.maxSize, q.lastPack⟩

/-- The object that `prepare` makes, after `recover`. -/
def recover (snapshot : List (Option Int × V)) : QueueObject V :=
  ⟨(snapshot.map ExpItem.restore).toArray, none, 0⟩

/-- `_pack` without the two attributes. An expired item asks for `_on_expire`; without one the
    items are packed before `_max_size` is asked for. -/
def packUninitialised (o : QueueObject V) (now : ℚ) : QueueObject V :=
  if o.heap.toList.all (Item.alive now) then
    { o with heap := Heap.heapify ExpItem.lt o.heap, lastPack := now }
  else o

/-- An operation, and what it returns or raises. -/
def step (o : QueueObject V) (op : QueueOp V) : QueueObject V × Answer V :=
  match o.maxSize with
  | some maxSize =>
    let q : ExpQueue V := ⟨o.heap, maxSize, o.lastPack⟩
    (initialised (q.step op), q.answer op)
  | none => match op with
    -- `_lazy_pack` asks for `_max_size` before anything else
    | .add _ _ _ _ | .pop _ | .iter _ => (o, .attributeError)
    | .pack now => (o.packUninitialised now, .attributeError)
    | .len now => (o, .number (o.heap.toList.filter (Item.alive now)).length)
    | .clear _ => ({ o with heap := #[] }, .none)

/-- Two queues answer a sequence of operations alike. -/
def AnswersAlike : QueueObject V → QueueObject V → List (QueueOp V) → Prop
  | _, _, [] => True
  | o, r, op :: ops =>
    (o.step op).2 = (r.step op).2 ∧ AnswersAlike (o.step op).1 (r.step op).1 ops

end QueueObject

/-- The operation does not pack. -/
def QueueOp.Unpacked : QueueOp V → Prop
  | .len _ | .clear _ => True
  | _ => False

instance : (op : QueueOp V) → Decidable op.Unpacked
  | .len _ | .clear _ => inferInstanceAs (Decidable True)
  | .add _ _ _ _ | .pop _ | .pack _ | .iter _ => inferInstanceAs (Decidable False)

namespace QueueObject
variable {o r : QueueObject V}

/-- A queue that was initialised raises no `AttributeError`. -/
theorem answer_ne (q : ExpQueue V) (op : QueueOp V) : q.answer op ≠ .attributeError := by
  cases op with
  | pop now =>
    unfold ExpQueue.answer
    dsimp only
    split
    · exact fun h => by cases h
    · exact fun h => by cases h
  | _ => exact fun h => by cases h

/-- A queue that was recovered answers with an error, unless the operation does not pack. -/
theorem step_uninitialised (hr : r.maxSize = none) {op : QueueOp V} (hop : ¬ op.Unpacked) :
    (r.step op).2 = .attributeError := by
  unfold step
  rw [hr]
  cases op with
  | len _ => exact absurd trivial hop
  | clear _ => exact absurd trivial hop
  | _ => rfl

/-- An initialised queue and one that is not, with the same items. -/
structure SameItems (o r : QueueObject V) : Prop where
  initialised : ∃ maxSize, o.maxSize = some maxSize
  uninitialised : r.maxSize = none
  items : o.heap.toList.Perm r.heap.toList

/-- What does not pack keeps the items the same, and answers the same. -/
theorem SameItems.step (h : SameItems o r) {op : QueueOp V} (hop : op.Unpacked) :
    (o.step op).2 = (r.step op).2 ∧ SameItems (o.step op).1 (r.step op).1 := by
  obtain ⟨⟨maxSize, ho⟩, hr, hitems⟩ := h
  unfold QueueObject.step
  rw [ho, hr]
  cases op with
  | len now =>
    refine ⟨congrArg Answer.number (hitems.filter _).length_eq, ⟨maxSize, rfl⟩, hr, hitems⟩
  | clear now => exact ⟨rfl, ⟨maxSize, rfl⟩, rfl, .refl _⟩
  | add _ _ _ _ => exact absurd hop id
  | pop _ => exact absurd hop id
  | pack _ => exact absurd hop id
  | iter _ => exact absurd hop id

theorem SameItems.alike (h : SameItems o r) (ops : List (QueueOp V)) :
    AnswersAlike o r ops ↔ ∀ op ∈ ops, op.Unpacked := by
  induction ops generalizing o r with
  | nil => simp [AnswersAlike]
  | cons op ops ih =>
    rw [List.forall_mem_cons]
    constructor
    · rintro ⟨hanswer, hrest⟩
      have hop : op.Unpacked := by
        by_contra hnot
        rw [step_uninitialised h.uninitialised hnot] at hanswer
        obtain ⟨maxSize, ho⟩ := h.initialised
        unfold QueueObject.step at hanswer
        rw [ho] at hanswer
        exact answer_ne _ op hanswer
      exact ⟨hop, (ih (h.step hop).2).mp hrest⟩
    · rintro ⟨hop, hrest⟩
      obtain ⟨hanswer, hsame⟩ := h.step hop
      exact ⟨hanswer, (ih hsame).mpr hrest⟩

/-- What is recovered has the live items of the queue, rounded. -/
theorem sameItems_recover (q : ExpQueue V) (now : ℚ) :
    SameItems (initialised (q.rounded now)) (recover (q.snapshot now)) := by
  refine ⟨⟨q.maxSize, rfl⟩, rfl, ?_⟩
  have hmap : ((q.snapshot now).map ExpItem.restore) =
      (q.heap.toList.filter (Item.alive now)).map ExpItem.round := by
    unfold ExpQueue.snapshot
    rw [List.map_map]
    apply List.map_congr_left
    intro i _
    exact ExpItem.restore_snapshot i
  show (Heap.heapify ExpItem.lt _).toList.Perm ((q.snapshot now).map ExpItem.restore).toArray.toList
  rw [hmap]
  exact Heap.heapify_perm ExpItem.lt _

end QueueObject

/-! ## Both containers -/

/-- A recovered dictionary answers like the original one with its expirations rounded if and
    only if what is popped is popped from both where both store something or neither does, or
    with the default None; a recovered queue, if and only if only its length is asked for and
    it is cleared. -/
theorem recovered_alike_iff (order order' order'' : HashOrder κ) (d : ExpDict κ V)
    (ops : List (ℚ × Op κ V)) (hclock : (ops.map Prod.fst).Pairwise (· ≤ ·)) (q : ExpQueue V)
    (now : ℚ) (qops : List (QueueOp V)) :
    (ExpDict.AnswersAlike order order' d.rounded (.recover order'' (d.snapshot order)) ops ↔
        ExpDict.AllPopAlike order order' d.rounded (.recover order'' (d.snapshot order)) ops) ∧
      (QueueObject.AnswersAlike (.initialised (q.rounded now)) (.recover (q.snapshot now)) qops ↔
        ∀ op ∈ qops, op.Unpacked) := by
  exact ⟨ExpDict.all_alike hclock fun p _ => ExpDict.liveAlike_recover d p.1,
    (QueueObject.sameItems_recover q now).alike qops⟩

/-- A dictionary with an entry that expires within a millisecond, and a queue that is counted. -/
theorem recovered_alike_counted :
    let d : ExpDict String Nat :=
      ((ExpDict.new none).step .stored 1 (.set "a" (some 1) (some (100004 / 10000)) false)).1
    let q : ExpQueue Nat := (ExpQueue.new none).step (.add 1 5 (some 10) true)
    ExpDict.AnswersAlike .stored .reversed d.rounded (.recover .stored (d.snapshot .stored))
        [(2, .get "a" none), (3, .pop "b" (some (some 7))), (4, .setItem "b" none), (5, .keys),
          (11, .contains "a"), (12, .pack), (13, .len)] ∧
      QueueObject.AnswersAlike (.initialised (q.rounded 2)) (.recover (q.snapshot 2))
        [.len 3, .clear 4, .len 5] := by
  intro d q
  obtain ⟨hdict, hqueue⟩ := recovered_alike_iff .stored .reversed .stored d
    [(2, .get "a" none), (3, .pop "b" (some (some 7))), (4, .setItem "b" none), (5, .keys),
      (11, .contains "a"), (12, .pack), (13, .len)] (by decide) q 2 [.len 3, .clear 4, .len 5]
  exact ⟨hdict.mpr (by decide +kernel), hqueue.mpr (by decide)⟩

/-- A new queue is recovered, and then a value added. -/
theorem recovered_queue_refuses :
    ¬ ∀ (q : ExpQueue Nat) (now : ℚ) (ops : List (QueueOp Nat)),
      QueueObject.AnswersAlike (.initialised (q.rounded now)) (.recover (q.snapshot now)) ops := by
  intro h
  have hadd : Answer.none = .attributeError := (h (.new none) 0 [.add 0 1 none false]).1
  cases hadd

-- the dictionary packed half a second ago, and the recovered one packs now: all has expired
example :
    let d : ExpDict String Nat :=
      { (ExpDict.new (some 1) : ExpDict String Nat).pack .stored 10 with
        items := Dict.ofList [("a", ⟨some (102 / 10), some 1⟩)] }
    ¬ ExpDict.AnswersAlike .stored .stored d.rounded (.recover .stored (d.snapshot .stored))
        [(105 / 10, .pop "b" (some (some 7)))] := by
  intro d
  rw [ExpDict.all_alike (by decide) fun p _ => ExpDict.liveAlike_recover d p.1]
  decide +kernel

end Feat.Common
