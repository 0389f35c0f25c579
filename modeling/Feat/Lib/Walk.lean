import Mathlib.Data.List.Basic
import Mathlib.Data.List.Count

/- A list that is walked by index while elements are erased from it, as by a loop over a list
   whose body removes what it is at from the same list.

   Each element that is erased moves those after it to the front by one, so the next one
   is not looked at. What is not erased stays, in its order (`filter_not_eraseWalk`). All
   that should be erased are if and only if no two of them are neighbours
   (`eraseWalk_clean_iff`). -/
namespace Walk

variable {α : Type} [DecidableEq α]

/-- The walk, from an index on, with so many steps. -/
def eraseWalk (p : α → Bool) : Nat → Nat → List α → List α
  | 0, _, l => l
  | fuel + 1, i, l =>
    match l[i]? with
    | none => l
    | some a => eraseWalk p fuel (i + 1) (if p a then l.erase a else l)

variable {p : α → Bool} {l : List α}

theorem filter_not_erase {a : α} (ha : p a = true) :
    (l.erase a).filter (fun b => !p b) = l.filter fun b => !p b := by
  induction l with
  | nil => rfl
  | cons b l ih =>
    rw [List.erase_cons]
    split
    · rename_i hb
      rw [beq_iff_eq.mp hb, List.filter_cons_of_neg (by simp [ha])]
    · rw [List.filter_cons, List.filter_cons, ih]

/-- What is not to be erased stays, in the same order. -/
theorem filter_not_eraseWalk (fuel i : Nat) (l : List α) :
    (eraseWalk p fuel i l).filter (fun a => !p a) = l.filter fun a => !p a := by
  induction fuel generalizing i l with
  | zero => rfl
  | succ fuel ih =>
    unfold eraseWalk
    split
    · rfl
    · rw [ih]
      split
      · rename_i ha
        exact filter_not_erase ha
      · rfl

/-- How many of those that should be erased are not looked at. -/
def skipped (p : α → Bool) : List α → Nat
  | [] => 0
  | [_] => 0
  | a :: b :: l => if p a then [b].countP p + skipped p l else skipped p (b :: l)

theorem countP_erase_of_mem {a : α} (ha : p a = true) (hmem : a ∈ l) :
    (l.erase a).countP p + 1 = l.countP p := by
  have hperm := (List.perm_cons_erase hmem).countP_eq p
  rw [hperm, List.countP_cons_of_pos ha]

/-- The walk ends behind the last element. -/
theorem eraseWalk_of_le (fuel : Nat) {i : Nat} (hi : l.length ≤ i) : eraseWalk p fuel i l = l := by
  cases fuel with
  | zero => rfl
  | succ fuel => rw [eraseWalk, List.getElem?_eq_none hi]

/-- The walk from an index on leaves what is before it and what it does not look at. -/
theorem countP_eraseWalk (fuel : Nat) (front rest : List α) (hfuel : rest.length ≤ fuel) :
    (eraseWalk p fuel front.length (front ++ rest)).countP p =
      front.countP p + skipped p rest := by
  induction fuel generalizing front rest with
  | zero =>
    obtain rfl := List.length_eq_zero_iff.mp (Nat.le_zero.mp hfuel)
    simp [eraseWalk, skipped]
  | succ fuel ih =>
    unfold eraseWalk
    cases rest with
    | nil => simp [skipped]
    | cons a rest =>
      have hat : (front ++ a :: rest)[front.length]? = some a := by simp
      have hlen : rest.length ≤ fuel := by simpa using hfuel
      rw [hat]
      dsimp only
      by_cases ha : p a = true
      · rw [if_pos ha]
        -- those behind come nearer by one
        have hmem : a ∈ front ++ [a] := by simp
        have herase : (front ++ a :: rest).erase a = (front ++ [a]).erase a ++ rest := by
          rw [List.append_cons, List.erase_append_left _ hmem]
        have hlength : ((front ++ [a]).erase a).length = front.length := by
          rw [List.length_erase_of_mem hmem, List.length_append]
          rfl
        have hcount := countP_erase_of_mem ha hmem
        rw [List.countP_append, List.countP_singleton, if_pos ha] at hcount
        rw [herase]
        cases rest with
        | nil =>
          rw [List.append_nil, eraseWalk_of_le fuel (by omega)]
          simp only [skipped]
          omega
        | cons b rest =>
          have hnext := ih ((front ++ [a]).erase a ++ [b]) rest (by simp at hlen; omega)
          rw [List.length_append, hlength, List.length_singleton, List.append_assoc,
            List.singleton_append] at hnext
          rw [hnext, List.countP_append, skipped, if_pos ha]
          omega
      · rw [if_neg ha]
        have hnext := ih (front ++ [a]) rest hlen
        rw [List.length_append, List.length_singleton, List.append_assoc,
          List.singleton_append] at hnext
        rw [hnext, List.countP_append, List.countP_singleton, if_neg ha]
        cases rest with
        | nil => simp [skipped]
        | cons b rest =>
          rw [skipped, if_neg ha]
          omega

/-- No two neighbours are both to be erased. -/
def Apart (p : α → Bool) (l : List α) : Prop := l.IsChain fun a b => ¬ (p a = true ∧ p b = true)

omit [DecidableEq α] in
theorem skipped_eq_zero_iff (l : List α) : skipped p l = 0 ↔ Apart p l := by
  unfold Apart
  induction l using skipped.induct p with
  | case1 => simp [skipped]
  | case2 a => simp [skipped]
  | case3 a b l ha ih =>
    rw [skipped, if_pos ha, Nat.add_eq_zero_iff, ih, List.isChain_cons_cons]
    have hb : [b].countP p = 0 ↔ ¬ (p a = true ∧ p b = true) := by
      simp [List.countP_singleton, ha]
    rw [hb]
    refine and_congr_right fun hnot => ?_
    cases l with
    | nil => simp
    | cons c l =>
      rw [List.isChain_cons_cons]
      exact (and_iff_right fun h => hnot ⟨ha, h.1⟩).symm
  | case4 a b l ha ih =>
    rw [skipped, if_neg ha, ih, List.isChain_cons_cons]
    exact (and_iff_right fun h => ha h.1).symm

/-- All that should be erased are if and only if no two of them are neighbours. -/
theorem eraseWalk_clean_iff (l : List α) :
    (∀ a ∈ eraseWalk p l.length 0 l, p a = false) ↔ Apart p l := by
  have hcount := countP_eraseWalk (p := p) l.length [] l (Nat.le_refl _)
  rw [List.length_nil, List.nil_append, List.countP_nil, Nat.zero_add] at hcount
  rw [← skipped_eq_zero_iff, ← hcount, List.countP_eq_zero]
  simp

end Walk
