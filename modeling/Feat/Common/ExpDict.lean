import Mathlib.Algebra.Order.Ring.Rat
import Feat.Lib.Expiring

/- A dictionary whose entries expire (`feat.common.container.ExpDict`), and the plain
   dictionary it stands for.

   Expired entries stay in `items` until an operation meets them or packs the
   dictionary. `lazyPack` does so when there are more entries than usual, which is a
   running average, but not more than once a second.

   The plain dictionary (`Plain`) is a table of values with their expirations from
   which the expired ones are removed before each operation. An operation of
   `ExpDict` gives the result that the plain one gives, and leaves the same entries,
   if and only if it is `Plainly` done (`step_refines_iff`); so the two agree over a
   sequence of operations if and only if all of them are (`exp_dict_refines`).

   Two operations fall out (`exp_dict_differs`): `pop` on a dictionary that stores
   nothing gives None, not the default or a KeyError, and `set` with an expiration
   that is over already keeps the value that the key had.

   Times and expirations are rational numbers. A value is some value or None. The
   order in which a dictionary is walked is not specified: results that list entries
   are compared up to order. -/
namespace Feat.Common
open Hash Expiring

variable {κ V : Type} [DecidableEq κ]

/-- `RunningAverage`. -/
structure RunningAverage where
  default : ℚ
  nominator : ℚ
  denominator : ℚ

/-- `get_value`. -/
def RunningAverage.getValue (a : RunningAverage) : ℚ :=
  if a.denominator = 0 then a.default else a.nominator / a.denominator

/-- `add_point`. -/
def RunningAverage.addPoint (a : RunningAverage) (value : ℚ) : RunningAverage :=
  { a with nominator := a.nominator + value, denominator := a.denominator + 1 }

/-- `DEFAULT_MAX_SIZE`. -/
def defaultMaxSize : ℚ := 100

/-- `MAX_LAZY_PACK_PER_SECOND`. -/
def maxLazyPackPerSecond : ℚ := 1

/-- A value, or None. -/
abbrev Value (V : Type) : Type := Option V

abbrev ExpItem (V : Type) : Type := Item ℚ (Value V)

structure ExpDict (κ V : Type) where
  items : Dict κ (ExpItem V)
  maxSize : RunningAverage
  lastPack : ℚ

/-- The operations. The default of `get` is None when it is not given. -/
inductive Op (κ V : Type) where
  | set (key : κ) (value : Value V) (expiration : Option ℚ) (relative : Bool)
  | setItem (key : κ) (value : Value V)
  | get (key : κ) (default : Value V)
  | getExpiration (key : κ)
  | getItem (key : κ)
  | pop (key : κ) (default : Option (Value V))
  | remove (key : κ)
  | delItem (key : κ)
  | contains (key : κ)
  | keys
  | values
  | iteritems
  | len
  | pack
  | clear

/-- What an operation returns or raises. -/
inductive Result (κ V : Type) where
  | value (v : Value V)
  | expiration (exp : Option ℚ)
  | bool (b : Bool)
  | number (n : Nat)
  | keys (ks : List κ)
  | values (vs : List (Value V))
  | items (ps : List (κ × Value V))
  | keyError (key : κ)

/-- `return`. -/
def Result.none : Result κ V := .value Option.none

/-- The same, where the order in which entries are listed does not count. -/
def Result.Same : Result κ V → Result κ V → Prop
  | .keys ks, .keys ks' => ks.Perm ks'
  | .values vs, .values vs' => vs.Perm vs'
  | .items ps, .items ps' => ps.Perm ps'
  | r, r' => r = r'

/-- The time at which an entry expires that is set now. -/
def deadline (now : ℚ) (expiration : Option ℚ) (relative : Bool) : Option ℚ :=
  expiration.map fun exp => if relative then now + exp else exp

namespace ExpDict
variable (order : HashOrder κ)

/-- `__init__`. -/
def new (maxSize : Option ℚ) : ExpDict κ V :=
  ⟨∅, ⟨maxSize.getD defaultMaxSize, 0, 0⟩, 0⟩

/-- `_pack`. -/
def pack (d : ExpDict κ V) (now : ℚ) : ExpDict κ V :=
  let items := purge order now d.items
  ⟨items, d.maxSize.addPoint items.keys.length, now⟩

/-- `_lazy_pack`. -/
def lazyPack (d : ExpDict κ V) (now : ℚ) : ExpDict κ V :=
  if (d.items.keys.length : ℚ) > d.maxSize.getValue * (5 / 4) then
    if now - d.lastPack ≥ 1 / maxLazyPackPerSecond then d.pack order now else d
  else d

/-- `_get_item`. -/
def getItem (d : ExpDict κ V) (now : ℚ) (key : κ) : ExpDict κ V × Option (ExpItem V) :=
  let d := d.lazyPack order now
  match d.items.lookup key with
  | some item =>
    if item.alive now then (d, some item)
    else ({ d with items := d.items.erase key }, none)
  | none => (d, none)

/-- `set`. -/
def set (d : ExpDict κ V) (now : ℚ) (key : κ) (value : Value V) (expiration : Option ℚ)
    (relative : Bool) : ExpDict κ V :=
  let d := d.lazyPack order now
  match deadline now expiration relative with
  | none => { d with items := d.items.insert key ⟨none, value⟩ }
  | some exp => if exp ≤ now then d else { d with items := d.items.insert key ⟨some exp, value⟩ }

/-- `self._items.pop(key)`, and the value of the item unless it has expired. -/
def take (d : ExpDict κ V) (now : ℚ) (key : κ) (missing : Result κ V) : ExpDict κ V × Result κ V :=
  match d.items.lookup key with
  | none => (d, missing)
  | some item =>
    let d := { d with items := d.items.erase key }
    if item.alive now then (d, .value item.value) else (d, missing)

/-- `remove`. -/
def remove (d : ExpDict κ V) (now : ℚ) (key : κ) : ExpDict κ V × Result κ V :=
  let d := d.lazyPack order now
  if d.items.keys.isEmpty then (d, .keyError key) else d.take now key (.keyError key)

/-- What `pop` gives for a missing key. -/
def missing (key : κ) : Option (Value V) → Result κ V
  | some default => .value default
  | none => .keyError key

/-- `pop`. When nothing is stored the function ends without a result. -/
def pop (d : ExpDict κ V) (now : ℚ) (key : κ) (default : Option (Value V)) :
    ExpDict κ V × Result κ V :=
  let d := d.lazyPack order now
  if d.items.keys.isEmpty then (d, .none) else d.take now key (missing key default)

/-- The operations at some time. -/
def step (d : ExpDict κ V) (now : ℚ) : Op κ V → ExpDict κ V × Result κ V
  | .set key value expiration relative => (d.set order now key value expiration relative, .none)
  | .setItem key value =>
    let d := d.lazyPack order now
    ({ d with items := d.items.insert key ⟨none, value⟩ }, .none)
  | .get key default =>
    let (d, item) := d.getItem order now key
    match item with
    | none => (d, .value default)
    | some item => (d, .value item.value)
  | .getExpiration key =>
    let (d, item) := d.getItem order now key
    match item with
    | none => (d, .keyError key)
    | some item => (d, .expiration item.exp)
  | .getItem key =>
    let (d, item) := d.getItem order now key
    match item with
    | some item => (d, .value item.value)
    | none => (d, .keyError key)
  | .pop key default => d.pop order now key default
  | .remove key => d.remove order now key
  | .delItem key =>
    let (d, item) := d.getItem order now key
    match item with
    | some _ => ({ d with items := d.items.erase key }, .none)
    | none => (d, .keyError key)
  | .contains key =>
    let (d, item) := d.getItem order now key
    (d, .bool item.isSome)
  | .keys =>
    let d := d.lazyPack order now
    (d, .keys ((liveItems order now d.items).map Prod.fst))
  | .values =>
    let d := d.lazyPack order now
    (d, .values ((liveItems order now d.items).map fun p => p.2.value))
  | .iteritems =>
    let d := d.lazyPack order now
    (d, .items ((liveItems order now d.items).map fun p => (p.1, p.2.value)))
  | .len => (d, .number (liveItems order now d.items).length)
  | .pack => (d.pack order now, .none)
  | .clear => ({ d with items := ∅ }, .none)

end ExpDict

/-! ## The plain dictionary -/

/-- A plain dictionary of values with their expirations. -/
abbrev Plain (κ V : Type) : Type := Dict κ (ExpItem V)

namespace Plain
variable (order : HashOrder κ)

/-- The operations of a dictionary in which nothing has expired. -/
def apply (d : Plain κ V) (now : ℚ) : Op κ V → Plain κ V × Result κ V
  | .set key value expiration relative =>
    (d.insert key ⟨deadline now expiration relative, value⟩, .none)
  | .setItem key value => (d.insert key ⟨none, value⟩, .none)
  | .get key default => (d, .value (((d.lookup key).map Item.value).getD default))
  | .getExpiration key => match d.lookup key with
    | some item => (d, .expiration item.exp)
    | none => (d, .keyError key)
  | .getItem key => match d.lookup key with
    | some item => (d, .value item.value)
    | none => (d, .keyError key)
  | .pop key default => match d.lookup key, default with
    | some item, _ => (d.erase key, .value item.value)
    | none, some v => (d, .value v)
    | none, none => (d, .keyError key)
  | .remove key => match d.lookup key with
    | some item => (d.erase key, .value item.value)
    | none => (d, .keyError key)
  | .delItem key => match d.lookup key with
    | some _ => (d.erase key, .none)
    | none => (d, .keyError key)
  | .contains key => (d, .bool (d.lookup key).isSome)
  | .keys => (d, .keys ((Dict.items order d).map Prod.fst))
  | .values => (d, .values ((Dict.items order d).map fun p => p.2.value))
  | .iteritems => (d, .items ((Dict.items order d).map fun p => (p.1, p.2.value)))
  | .len => (d, .number (Dict.items order d).length)
  | .pack => (d, .none)
  | .clear => (∅, .none)

/-- What has expired is removed before the operation. -/
def step (d : Plain κ V) (now : ℚ) (op : Op κ V) : Plain κ V × Result κ V :=
  apply order (purge order now d) now op

end Plain

/-! ## The condition -/

/-- The operation is done as on a plain dictionary: a value that is set has not expired yet, or the
key had none; and what is popped from is a dictionary that stores something, or the default is
None. -/
def Plainly (order : HashOrder κ) (d : ExpDict κ V) (now : ℚ) : Op κ V → Prop
  | .set key _ expiration relative =>
    (∀ exp ∈ deadline now expiration relative, now < exp) ∨ live now d.items key = none
  | .pop _ default => (d.lazyPack order now).items.keys ≠ [] ∨ default = some none
  | _ => True

instance (order : HashOrder κ) (d : ExpDict κ V) (now : ℚ) [DecidableEq V] :
    (op : Op κ V) → Decidable (Plainly order d now op)
  | .set _ _ _ _ => inferInstanceAs (Decidable (_ ∨ _))
  | .pop _ _ => inferInstanceAs (Decidable (_ ∨ _))
  | .setItem _ _ | .get _ _ | .getExpiration _ | .getItem _ | .remove _ | .delItem _ | .contains _
  | .keys | .values | .iteritems | .len | .pack | .clear => inferInstanceAs (Decidable True)

/-- They hold the same entries at that time. -/
def Agree (now : ℚ) (d : ExpDict κ V) (p : Plain κ V) : Prop :=
  ∀ key, live now d.items key = live now p key

section Steps
variable {order order' : HashOrder κ} {d : ExpDict κ V} {p : Plain κ V} {now : ℚ} {key : κ}

theorem Agree.mono {now' : ℚ} (h : Agree now d p) (hnow : now ≤ now') : Agree now' d p := by
  intro key
  rw [live_later hnow, live_later hnow, h key]

/-- Packing, now or never, does not change what is live. -/
theorem live_lazyPack (order : HashOrder κ) (d : ExpDict κ V) (now : ℚ) (key : κ) :
    live now (d.lazyPack order now).items key = live now d.items key := by
  unfold ExpDict.lazyPack
  split
  · split
    · exact live_purge (le_refl now) order d.items key
    · rfl
  · rfl

/-- What is not live is missing or has expired. -/
theorem lookup_of_not_live {items : Dict κ (ExpItem V)} (h : live now items key = none) :
    items.lookup key = none ∨ ∃ item, items.lookup key = some item ∧ item.alive now = false := by
  cases hlookup : items.lookup key with
  | none => exact Or.inl rfl
  | some item =>
    refine Or.inr ⟨item, rfl, ?_⟩
    cases halive : item.alive now with
    | false => rfl
    | true =>
      rw [live_eq_some.mpr ⟨hlookup, halive⟩] at h
      cases h

/-- Erasing what is not live changes nothing. -/
theorem live_erase_dead {items : Dict κ (ExpItem V)} (h : live now items key = none) (k : κ) :
    live now (items.erase key) k = live now items k := by
  rw [live_erase]
  split
  · rename_i hk
    rw [hk, h]
  · rfl

/-- `_get_item` gives what is live, and leaves it alone. -/
theorem getItem_spec (order : HashOrder κ) (d : ExpDict κ V) (now : ℚ) (key : κ) :
    ∃ d', d.getItem order now key = (d', live now d.items key) ∧
      ∀ k, live now d'.items k = live now d.items k := by
  unfold ExpDict.getItem
  rw [← live_lazyPack order d now key]
  cases hlive : live now (d.lazyPack order now).items key with
  | some item =>
    obtain ⟨hlookup, halive⟩ := live_eq_some.mp hlive
    simp only [hlookup, halive, if_true]
    exact ⟨_, rfl, live_lazyPack order d now⟩
  | none =>
    rcases lookup_of_not_live hlive with hlookup | ⟨item, hlookup, hdead⟩
    · simp only [hlookup]
      exact ⟨_, rfl, live_lazyPack order d now⟩
    · simp only [hlookup, hdead]
      refine ⟨_, rfl, fun k => ?_⟩
      rw [← live_lazyPack order d now k]
      exact live_erase_dead hlive k

/-- Against the plain dictionary after its expired entries have been removed. -/
theorem Agree.purged (h : Agree now d p) (order : HashOrder κ) :
    (∀ k, (purge order now p).lookup k = live now d.items k) ∧
      ∀ k, live now (purge order now p) k = live now d.items k :=
  ⟨fun k => by rw [lookup_purge, h k],
    fun k => by rw [live_purge (le_refl now), h k]⟩

/-- The plain dictionary lists what is live. -/
theorem items_purged {q : Plain κ V} (h : ∀ k, q.lookup k = live now d.items k) :
    (liveItems order now d.items).Perm (Dict.items order' q) := by
  have hall : liveItems order' now q = Dict.items order' q := by
    refine List.filter_eq_self.mpr (fun i hi => ?_)
    have hlookup := Dict.mem_items.mp hi
    rw [h] at hlookup
    exact (live_eq_some.mp hlookup).2
  rw [← hall]
  refine liveItems_perm (fun k => ?_)
  rw [live, live, h, live, Option.filter_filter]
  simp

omit [DecidableEq κ] in
theorem Result.Same.refl (r : Result κ V) : r.Same r := by
  cases r <;> simp [Result.Same]

/-- What was not live is not missed. -/
theorem agree_erase {q : Plain κ V} {items : Dict κ (ExpItem V)}
    (h : ∀ k, live now items k = live now q k) :
    ∀ k, live now (items.erase key) k = live now (q.erase key) k := by
  intro k
  rw [live_erase, live_erase, h]

theorem agree_insert {q : Plain κ V} {items : Dict κ (ExpItem V)} (item : ExpItem V)
    (h : ∀ k, live now items k = live now q k) :
    ∀ k, live now (items.insert key item) k = live now (q.insert key item) k := by
  intro k
  rw [live_insert, live_insert, h]

/-- What `take` gives and leaves. -/
theorem take_spec (d : ExpDict κ V) (now : ℚ) (key : κ) (missing : Result κ V) :
    (d.take now key missing).2 = ((live now d.items key).map fun i => .value i.value).getD missing ∧
      ∀ k, live now (d.take now key missing).1.items k = live now (d.items.erase key) k := by
  unfold ExpDict.take
  cases hlive : live now d.items key with
  | some item =>
    obtain ⟨hlookup, halive⟩ := live_eq_some.mp hlive
    simp [hlookup, halive]
  | none =>
    rcases lookup_of_not_live hlive with hlookup | ⟨item, hlookup, hdead⟩
    · simp only [hlookup]
      exact ⟨rfl, fun k => (live_erase_dead hlive k).symm⟩
    · simp [hlookup, hdead]

/-- A dictionary that stores nothing has nothing live. -/
theorem not_live_of_empty {items : Dict κ (ExpItem V)} (h : items.keys = []) (key : κ) :
    live now items key = none := by
  have hnone : items.lookup key = none := by
    rw [AList.lookup_eq_none, AList.mem_keys, h]
    exact List.not_mem_nil
  rw [live, hnone]
  rfl

/-- `remove` is done plainly: nothing is missed when nothing is stored. -/
theorem remove_spec (order : HashOrder κ) (d : ExpDict κ V) (now : ℚ) (key : κ) :
    (d.remove order now key).2 =
        ((live now d.items key).map fun i => .value i.value).getD (.keyError key) ∧
      ∀ k, live now (d.remove order now key).1.items k = live now (d.items.erase key) k := by
  have herase : ∀ k, live now ((d.lazyPack order now).items.erase key) k =
      live now (d.items.erase key) k := by
    intro k
    rw [live_erase, live_erase, live_lazyPack]
  unfold ExpDict.remove
  rw [← live_lazyPack order d now key]
  by_cases hempty : (d.lazyPack order now).items.keys = []
  · have hnone : live now (d.lazyPack order now).items key = none := not_live_of_empty hempty key
    simp only [hempty, List.isEmpty_nil, if_true, hnone]
    exact ⟨rfl, fun k => by rw [← herase, live_erase_dead hnone]⟩
  · obtain ⟨hresult, hstate⟩ := take_spec (d.lazyPack order now) now key (.keyError key)
    simp only [List.isEmpty_iff, hempty, if_false]
    exact ⟨hresult, fun k => by rw [hstate, herase]⟩

/-- `pop` too, unless nothing is stored. -/
theorem pop_spec (order : HashOrder κ) (d : ExpDict κ V) (now : ℚ) (key : κ)
    (default : Option (Value V)) :
    (d.pop order now key default).2 = (if (d.lazyPack order now).items.keys = [] then .none
      else ((live now d.items key).map fun i => .value i.value).getD
        (ExpDict.missing key default)) ∧
      ∀ k, live now (d.pop order now key default).1.items k = live now (d.items.erase key) k := by
  have herase : ∀ k, live now ((d.lazyPack order now).items.erase key) k =
      live now (d.items.erase key) k := by
    intro k
    rw [live_erase, live_erase, live_lazyPack]
  unfold ExpDict.pop
  rw [← live_lazyPack order d now key]
  by_cases hempty : (d.lazyPack order now).items.keys = []
  · have hnone : live now (d.lazyPack order now).items key = none := not_live_of_empty hempty key
    simp only [hempty, List.isEmpty_nil, if_true]
    exact ⟨trivial, fun k => by rw [← herase, live_erase_dead hnone]⟩
  · obtain ⟨hresult, hstate⟩ :=
      take_spec (d.lazyPack order now) now key (ExpDict.missing key default)
    simp only [List.isEmpty_iff, hempty, if_false]
    exact ⟨hresult, fun k => by rw [hstate, herase]⟩

/-! ## Steps -/

/-- An operation gives the plain result and leaves the same entries if and only if it is done
plainly. -/
theorem step_refines_iff (h : Agree now d p) (op : Op κ V) :
    ((d.step order now op).2.Same (Plain.step order' p now op).2 ∧
      Agree now (d.step order now op).1 (Plain.step order' p now op).1) ↔
    Plainly order d now op := by
  obtain ⟨hlookup, hlive⟩ := h.purged order'
  unfold Plain.step
  generalize purge order' now p = q at hlookup hlive ⊢
  have hpacked : ∀ k, live now (d.lazyPack order now).items k = live now q k := fun k => by
    rw [live_lazyPack, hlive]
  cases op with
  | set key value expiration relative =>
    simp only [ExpDict.step, Plain.apply, Plainly, ExpDict.set]
    cases hexp : deadline now expiration relative with
    | none =>
      refine ⟨fun _ => Or.inl (fun exp hin => by cases hin), fun _ => ?_⟩
      exact ⟨.refl _, agree_insert _ hpacked⟩
    | some exp =>
      by_cases hlate : exp ≤ now
      · -- the value the key had is not replaced
        have hover : (⟨some exp, value⟩ : ExpItem V).alive now = false := by
          simpa [Item.alive] using hlate
        have hdead : ∀ k, live now (q.insert key ⟨some exp, value⟩) k =
            if k = key then none else live now d.items k := by
          intro k
          rw [live_insert, hlive, Option.filter_some, hover]
          rfl
        simp only [hlate, if_true, Option.mem_def, Option.some.injEq, forall_eq',
          not_lt.mpr hlate, false_or]
        constructor
        · intro hagree
          have hkey := hagree.2 key
          rw [live_lazyPack, hdead, if_pos rfl] at hkey
          exact hkey
        · intro hnone
          refine ⟨.refl _, fun k => ?_⟩
          rw [live_lazyPack, hdead]
          split
          · rename_i hk
            rw [hk, hnone]
          · rfl
      · simp only [hlate, if_false, Option.mem_def, Option.some.injEq, forall_eq',
          not_le.mp hlate, true_or, iff_true]
        exact ⟨.refl _, agree_insert _ hpacked⟩
  | setItem key value =>
    exact ⟨fun _ => trivial, fun _ => ⟨.refl _, agree_insert _ hpacked⟩⟩
  | get key default =>
    obtain ⟨d', hget, hkeep⟩ := getItem_spec order d now key
    refine ⟨fun _ => trivial, fun _ => ?_⟩
    simp only [ExpDict.step, Plain.apply, hlookup, hget]
    cases live now d.items key <;> exact ⟨.refl _, fun k => by rw [hkeep, hlive]⟩
  | getExpiration key =>
    obtain ⟨d', hget, hkeep⟩ := getItem_spec order d now key
    refine ⟨fun _ => trivial, fun _ => ?_⟩
    simp only [ExpDict.step, Plain.apply, hlookup, hget]
    cases live now d.items key <;> exact ⟨.refl _, fun k => by rw [hkeep, hlive]⟩
  | getItem key =>
    obtain ⟨d', hget, hkeep⟩ := getItem_spec order d now key
    refine ⟨fun _ => trivial, fun _ => ?_⟩
    simp only [ExpDict.step, Plain.apply, hlookup, hget]
    cases live now d.items key <;> exact ⟨.refl _, fun k => by rw [hkeep, hlive]⟩
  | contains key =>
    obtain ⟨d', hget, hkeep⟩ := getItem_spec order d now key
    refine ⟨fun _ => trivial, fun _ => ?_⟩
    simp only [ExpDict.step, Plain.apply, hlookup, hget]
    exact ⟨.refl _, fun k => by rw [hkeep, hlive]⟩
  | delItem key =>
    obtain ⟨d', hget, hkeep⟩ := getItem_spec order d now key
    refine ⟨fun _ => trivial, fun _ => ?_⟩
    simp only [ExpDict.step, Plain.apply, hlookup, hget]
    cases live now d.items key with
    | none => exact ⟨.refl _, fun k => by rw [hkeep, hlive]⟩
    | some item => exact ⟨.refl _, agree_erase fun k => by rw [hkeep, hlive]⟩
  | remove key =>
    obtain ⟨hresult, hstate⟩ := remove_spec order d now key
    refine ⟨fun _ => trivial, fun _ => ?_⟩
    simp only [ExpDict.step, Plain.apply, hlookup, hresult]
    cases hkey : live now d.items key with
    | some item => exact ⟨.refl _, fun k => by rw [hstate, agree_erase fun k => (hlive k).symm]⟩
    | none => exact ⟨.refl _, fun k => by rw [hstate, live_erase_dead hkey, hlive]⟩
  | pop key default =>
    obtain ⟨hresult, hstate⟩ := pop_spec order d now key default
    simp only [ExpDict.step, Plain.apply, Plainly, hlookup, hresult]
    cases hkey : live now d.items key with
    | some item =>
      have hstored : (d.lazyPack order now).items.keys ≠ [] := by
        intro hempty
        rw [← live_lazyPack order d now key, not_live_of_empty hempty] at hkey
        cases hkey
      simp only [hstored, if_false, ne_eq, not_false_eq_true, true_or, iff_true]
      exact ⟨.refl _, fun k => by rw [hstate, agree_erase fun k => (hlive k).symm]⟩
    | none =>
      have hagree : ∀ k, live now (d.pop order now key default).1.items k = live now q k :=
        fun k => by rw [hstate, live_erase_dead hkey, hlive]
      by_cases hempty : (d.lazyPack order now).items.keys = []
      · -- None is right if it is the default
        simp only [hempty, if_true, ne_eq, not_true_eq_false, false_or]
        rcases default with _ | _ | v
        · simp [Result.Same, Result.none]
        · exact ⟨fun _ => rfl, fun _ => ⟨rfl, hagree⟩⟩
        · simp [Result.Same, Result.none]
      · simp only [hempty, if_false, ne_eq, not_false_eq_true, true_or, iff_true]
        cases default <;> exact ⟨.refl _, hagree⟩
  | keys =>
    refine ⟨fun _ => trivial, fun _ => ⟨?_, hpacked⟩⟩
    exact (items_purged fun k => by rw [live_lazyPack, hlookup]).map _
  | values =>
    refine ⟨fun _ => trivial, fun _ => ⟨?_, hpacked⟩⟩
    exact (items_purged fun k => by rw [live_lazyPack, hlookup]).map _
  | iteritems =>
    refine ⟨fun _ => trivial, fun _ => ⟨?_, hpacked⟩⟩
    exact (items_purged fun k => by rw [live_lazyPack, hlookup]).map _
  | len =>
    refine ⟨fun _ => trivial, fun _ => ⟨?_, fun k => (hlive k).symm⟩⟩
    exact congrArg Result.number (items_purged hlookup).length_eq
  | pack =>
    refine ⟨fun _ => trivial, fun _ => ⟨.refl _, fun k => ?_⟩⟩
    show live now (purge order now d.items) k = live now q k
    rw [hlive]
    exact live_purge (le_refl now) order d.items k
  | clear => exact ⟨fun _ => trivial, fun _ => ⟨.refl _, fun _ => rfl⟩⟩

end Steps

/-! ## Sequences of operations -/

section Sequences
variable (order order' : HashOrder κ)

/-- The operations, each at its time, all have the plain result and leave the same entries. -/
def Agrees : ExpDict κ V → Plain κ V → List (ℚ × Op κ V) → Prop
  | _, _, [] => True
  | d, p, (now, op) :: ops =>
    (d.step order now op).2.Same (Plain.step order' p now op).2 ∧
      Agree now (d.step order now op).1 (Plain.step order' p now op).1 ∧
      Agrees (d.step order now op).1 (Plain.step order' p now op).1 ops

/-- The operations are all done plainly. -/
def AllPlainly : ExpDict κ V → List (ℚ × Op κ V) → Prop
  | _, [] => True
  | d, (now, op) :: ops => Plainly order d now op ∧ AllPlainly (d.step order now op).1 ops

instance decidableAllPlainly [DecidableEq V] :
    (ops : List (ℚ × Op κ V)) → (d : ExpDict κ V) → Decidable (AllPlainly order d ops)
  | [], _ => inferInstanceAs (Decidable True)
  | (now, op) :: ops, d =>
    have := decidableAllPlainly ops (d.step order now op).1
    inferInstanceAs (Decidable (Plainly order d now op ∧ _))

variable {order order'}

theorem agrees_iff {ops : List (ℚ × Op κ V)} (hclock : (ops.map Prod.fst).Pairwise (· ≤ ·))
    {d : ExpDict κ V} {p : Plain κ V} (h : ∀ q ∈ ops, Agree q.1 d p) :
    Agrees order order' d p ops ↔ AllPlainly order d ops := by
  induction ops generalizing d p with
  | nil => exact Iff.rfl
  | cons q ops ih =>
    obtain ⟨now, op⟩ := q
    rw [List.map_cons, List.pairwise_cons] at hclock
    have hstep : ((d.step order now op).2.Same (Plain.step order' p now op).2 ∧
        Agree now (d.step order now op).1 (Plain.step order' p now op).1) ↔
        Plainly order d now op := step_refines_iff (h _ List.mem_cons_self) op
    have hrest : Agree now (d.step order now op).1 (Plain.step order' p now op).1 →
        (Agrees order order' (d.step order now op).1 (Plain.step order' p now op).1 ops ↔
          AllPlainly order (d.step order now op).1 ops) := fun hagree =>
      ih hclock.2 fun q hq => hagree.mono (hclock.1 _ (List.mem_map_of_mem hq))
    constructor
    · rintro ⟨hsame, hagree, hops⟩
      exact ⟨hstep.mp ⟨hsame, hagree⟩, (hrest hagree).mp hops⟩
    · rintro ⟨hplainly, hops⟩
      obtain ⟨hsame, hagree⟩ := hstep.mpr hplainly
      exact ⟨hsame, hagree, (hrest hagree).mpr hops⟩

/-- A new dictionary holds nothing, as an empty one. -/
theorem new_agree (maxSize : Option ℚ) (now : ℚ) : Agree now (ExpDict.new maxSize : ExpDict κ V) ∅ :=
  fun _ => rfl

end Sequences

/-- Over a sequence of operations, with a clock that does not go back, the dictionary and a plain
one have the same results and hold the same entries if and only if every operation is done
plainly. -/
theorem exp_dict_refines (order order' : HashOrder κ) (maxSize : Option ℚ)
    {ops : List (ℚ × Op κ V)} (hclock : (ops.map Prod.fst).Pairwise (· ≤ ·)) :
    Agrees order order' (ExpDict.new maxSize) ∅ ops ↔ AllPlainly order (ExpDict.new maxSize) ops :=
  agrees_iff hclock fun q _ => new_agree maxSize q.1

/-- Entries that expire, are popped, and packed. -/
theorem exp_dict_refines_expiring :
    let ops : List (ℚ × Op String Nat) :=
      [(1, .set "a" (some 1) (some 10) true), (2, .setItem "b" none), (3, .get "a" none),
        (11, .contains "a"), (12, .pop "a" (some (some 7))), (13, .keys), (14, .pack), (15, .len)]
    Agrees .stored .reversed (ExpDict.new none) ∅ ops := by
  intro ops
  exact (exp_dict_refines .stored .reversed none (by decide)).mpr (by decide +kernel)

/-- A default that is not given back, and a value that stays. -/
theorem exp_dict_differs :
    let popping : List (ℚ × Op String Nat) := [(1, .pop "a" (some (some 7)))]
    let setting : List (ℚ × Op String Nat) :=
      [(1, .setItem "a" (some 1)), (2, .set "a" (some 2) (some 0) true)]
    ¬ Agrees .stored .stored (ExpDict.new none) ∅ popping ∧
      ¬ Agrees .stored .stored (ExpDict.new none) ∅ setting := by
  intro popping setting
  constructor
  · rw [agrees_iff (by decide) fun q _ => new_agree none q.1]
    decide +kernel
  · rw [agrees_iff (by decide) fun q _ => new_agree none q.1]
    decide +kernel

end Feat.Common
