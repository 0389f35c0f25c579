import Mathlib.Data.List.Basic

/- Replicas of a table that is changed by overwriting.

   An operation writes some keys and leaves the others alone, whatever the table
   holds (`Write`), so of a list of operations the last one that writes a key is
   the one that counts. A replica sends its own operations to the original, which
   puts the operations of all replicas into one order and sends them back, and it
   applies its own ones when it sends them and once more when they come back.
   `Follows` is what holds at any time: when all that is on its way to the replica
   has arrived, it differs from the original only where an operation on its way
   up writes. -/
namespace Replica

variable {κ α : Type}

/-- What an operation writes at each key, if it writes there. -/
abbrev Write (κ α : Type) : Type := κ → Option α

/-- The table after an operation. -/
def Write.apply (w : Write κ α) (s : κ → α) : κ → α := fun k => (w k).getD (s k)

/-- The table after some operations, the first one first. -/
def applyAll (ws : List (Write κ α)) (s : κ → α) : κ → α := ws.foldl (fun s w => w.apply s) s

@[simp] theorem applyAll_nil (s : κ → α) : applyAll [] s = s := rfl

@[simp] theorem applyAll_cons (w : Write κ α) (ws : List (Write κ α)) (s : κ → α) :
    applyAll (w :: ws) s = applyAll ws (w.apply s) := rfl

@[simp] theorem applyAll_concat (ws : List (Write κ α)) (w : Write κ α) (s : κ → α) :
    applyAll (ws ++ [w]) s = w.apply (applyAll ws s) := by
  unfold applyAll
  rw [List.foldl_append]
  rfl

theorem apply_of_none {w : Write κ α} {k : κ} (h : w k = none) (s : κ → α) : w.apply s k = s k := by
  unfold Write.apply
  rw [h]
  rfl

theorem apply_of_some {w : Write κ α} {k : κ} {x : α} (h : w k = some x) (s : κ → α) :
    w.apply s k = x := by
  unfold Write.apply
  rw [h]
  rfl

/-- What operations leave at a key depends on what was there only. -/
theorem applyAll_congr (ws : List (Write κ α)) {s t : κ → α} {k : κ} (h : s k = t k) :
    applyAll ws s k = applyAll ws t k := by
  induction ws generalizing s t with
  | nil => exact h
  | cons w ws ih =>
    have hw : w.apply s k = w.apply t k := congrArg (w k).getD h
    exact ih hw

/-- When everything on its way down has arrived, the replica is like the original but for the
keys that operations on their way up write. -/
def Follows (original replica : κ → α) (up down : List (Write κ α)) : Prop :=
  ∀ k, (∀ w ∈ up, w k = none) → applyAll down replica k = original k

variable {s r : κ → α} {up down : List (Write κ α)} {w : Write κ α}

/-- The replica applies an operation and sends it. -/
theorem Follows.own (h : Follows s r up down) (w : Write κ α) :
    Follows s (w.apply r) (up ++ [w]) down := by
  intro k hup
  have hw : w k = none := hup w (by simp)
  have hsame : applyAll down (w.apply r) k = applyAll down r k :=
    applyAll_congr down (apply_of_none hw r)
  rw [hsame]
  exact h k fun v hv => hup v (List.mem_append_left _ hv)

/-- The original applies an operation and sends it down. -/
theorem Follows.original (h : Follows s r up down) (w : Write κ α) :
    Follows (w.apply s) r up (down ++ [w]) := by
  intro k hup
  rw [applyAll_concat]
  cases hw : w k with
  | none => rw [apply_of_none hw, apply_of_none hw, h k hup]
  | some x => rw [apply_of_some hw, apply_of_some hw]

/-- An operation of the replica arrives at the original, which sends it down. -/
theorem Follows.ordered (h : Follows s r (w :: up) down) :
    Follows (w.apply s) r up (down ++ [w]) := by
  intro k hup
  rw [applyAll_concat]
  cases hw : w k with
  | none =>
    rw [apply_of_none hw, apply_of_none hw]
    refine h k fun v hv => ?_
    obtain rfl | hv := List.mem_cons.mp hv
    · exact hw
    · exact hup v hv
  | some x => rw [apply_of_some hw, apply_of_some hw]

/-- An operation arrives at the replica. -/
theorem Follows.delivered (h : Follows s r up (w :: down)) : Follows s (w.apply r) up down := h

/-- The original sends a copy of itself, which overwrites all that is on its way. -/
theorem follows_copy (s r : κ → α) (up down : List (Write κ α)) :
    Follows s r up (down ++ [fun k => some (s k)]) := by
  intro k _
  rw [applyAll_concat]
  rfl

/-- A message that writes nothing leaves the way up. -/
theorem Follows.read (h : Follows s r (w :: up) down) (hw : ∀ k, w k = none) :
    Follows s r up down := by
  intro k hup
  refine h k fun v hv => ?_
  obtain rfl | hv := List.mem_cons.mp hv
  · exact hw k
  · exact hup v hv

/-- With nothing on its way, the replica is the original. -/
theorem Follows.eq (h : Follows s r [] []) : r = s :=
  funext fun k => h k fun _ hv => absurd hv List.not_mem_nil

end Replica
