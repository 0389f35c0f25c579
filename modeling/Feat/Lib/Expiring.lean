import Mathlib.Order.Defs.LinearOrder
import Feat.Lib.Totals

/- Tables whose entries expire. An entry that has expired counts for nothing:
   what a table stands for at a time are its live entries (`live`), whether or not
   the others are still stored. Throwing expired entries away (`purge`) does not
   change what is live then or later (`live_purge`), tables that stand for the same
   list the same entries (`liveItems_perm`), and what the live entries add up to is
   the total of the purged table (`sum_liveItems`). -/
namespace Expiring
open Hash

variable {T κ α : Type} [LinearOrder T]

/-- A value that expires at some time, if ever. -/
structure Item (T α : Type) where
  exp : Option T
  value : α
  deriving DecidableEq

/-- The item has not expired yet. -/
def Item.alive (now : T) (i : Item T α) : Bool :=
  match i.exp with
  | none => true
  | some exp => now < exp

theorem Item.alive_mono {now now' : T} {i : Item T α} (hnow : now ≤ now')
    (h : i.alive now' = true) : i.alive now = true := by
  unfold Item.alive at h ⊢
  split
  · rfl
  · rename_i exp hexp
    simp only [hexp, decide_eq_true_eq] at h ⊢
    exact lt_of_le_of_lt hnow h

variable [DecidableEq κ]

/-- What a table says about a key. -/
def live (now : T) (d : Dict κ (Item T α)) (k : κ) : Option (Item T α) :=
  (d.lookup k).filter (Item.alive now)

theorem live_eq_some {now : T} {d : Dict κ (Item T α)} {k : κ} {i : Item T α} :
    live now d k = some i ↔ d.lookup k = some i ∧ i.alive now = true := by
  simp [live, Option.filter_eq_some_iff]

/-- What is live later is live now. -/
theorem live_later {now now' : T} (hnow : now ≤ now') (d : Dict κ (Item T α)) (k : κ) :
    live now' d k = (live now d k).filter (Item.alive now') := by
  unfold live
  rw [Option.filter_filter]
  congr 1
  funext i
  cases h : i.alive now' with
  | false => simp
  | true => simp [Item.alive_mono hnow h]

theorem live_insert (now : T) (d : Dict κ (Item T α)) (k k' : κ) (i : Item T α) :
    live now (d.insert k i) k' =
      if k' = k then (some i).filter (Item.alive now) else live now d k' := by
  unfold live
  split
  · rename_i h
    rw [h, AList.lookup_insert]
  · rename_i h
    rw [AList.lookup_insert_ne h]

theorem live_erase (now : T) (d : Dict κ (Item T α)) (k k' : κ) :
    live now (d.erase k) k' = if k' = k then none else live now d k' := by
  unfold live
  split
  · rename_i h
    rw [h, AList.lookup_erase]
    rfl
  · rename_i h
    rw [AList.lookup_erase_ne h]

/-- The live entries, in iteration order. -/
def liveItems (o : HashOrder κ) (now : T) (d : Dict κ (Item T α)) : List (κ × Item T α) :=
  (Dict.items o d).filter (fun p => p.2.alive now)

theorem mem_liveItems {o : HashOrder κ} {now : T} {d : Dict κ (Item T α)} {k : κ}
    {i : Item T α} : (k, i) ∈ liveItems o now d ↔ live now d k = some i := by
  rw [liveItems, List.mem_filter, Dict.mem_items, live_eq_some]

theorem nodup_liveItems (o : HashOrder κ) (now : T) (d : Dict κ (Item T α)) :
    ((liveItems o now d).map Prod.fst).Nodup :=
  (Dict.keys_nodup_items o d).sublist (List.filter_sublist.map _)

/-- Two tables that say the same list the same entries. -/
theorem liveItems_perm {o o' : HashOrder κ} {now : T} {d d' : Dict κ (Item T α)}
    (h : ∀ k, live now d k = live now d' k) :
    (liveItems o now d).Perm (liveItems o' now d') := by
  rw [List.perm_ext_iff_of_nodup (nodup_liveItems o now d).of_map (nodup_liveItems o' now d').of_map]
  rintro ⟨k, i⟩
  rw [mem_liveItems, mem_liveItems, h]

/-- The table without the expired entries. -/
def purge (o : HashOrder κ) (now : T) (d : Dict κ (Item T α)) : Dict κ (Item T α) :=
  Dict.ofList (liveItems o now d)

theorem lookup_purge (o : HashOrder κ) (now : T) (d : Dict κ (Item T α)) (k : κ) :
    (purge o now d).lookup k = live now d k := by
  cases hlive : live now d k with
  | none =>
    cases hlookup : (purge o now d).lookup k with
    | none => rfl
    | some i =>
      have hmem := mem_liveItems.mp (Dict.mem_of_lookup_ofList hlookup)
      rw [hlive] at hmem
      cases hmem
  | some i =>
    have hmem : (k, i) ∈ liveItems o now d := mem_liveItems.mpr hlive
    cases hlookup : (purge o now d).lookup k with
    | none =>
      rw [purge, Dict.lookup_ofList, Option.map_eq_none_iff, List.find?_eq_none] at hlookup
      have hne := hlookup (k, i) (List.mem_reverse.mpr hmem)
      simp at hne
    | some j =>
      have hj := mem_liveItems.mp (Dict.mem_of_lookup_ofList hlookup)
      exact hj.symm.trans hlive

/-- Purging does not change what is live at that time or later. -/
theorem live_purge {now now' : T} (hnow : now ≤ now') (o : HashOrder κ) (d : Dict κ (Item T α))
    (k : κ) : live now' (purge o now d) k = live now' d k := by
  rw [live, lookup_purge, live_later hnow]

/-- What the live entries add up to. -/
theorem sum_liveItems {M : Type} [AddCommMonoid M] (o o' : HashOrder κ) (f : Item T α → M) (now : T)
    (d : Dict κ (Item T α)) :
    ((liveItems o now d).map fun p => f p.2).sum = Dict.total f (purge o' now d) := by
  have hall : liveItems o now (purge o' now d) = Dict.items o (purge o' now d) := by
    refine List.filter_eq_self.mpr (fun i hi => ?_)
    have hlookup := Dict.mem_items.mp hi
    rw [lookup_purge] at hlookup
    exact (live_eq_some.mp hlookup).2
  have hperm : (liveItems o now d).Perm (Dict.items o (purge o' now d)) := by
    rw [← hall]
    exact liveItems_perm (fun k => (live_purge (le_refl now) o' d k).symm)
  rw [(hperm.map _).sum_eq, ← Dict.sum_map_values o, Dict.values, List.map_map]
  rfl

end Expiring
