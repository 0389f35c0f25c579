import Mathlib.Logic.Relation
import Mathlib.Data.List.Basic

/- Lineages: the points reached from a point by following a partial parent
   function. `walk` collects a lineage newest first and gives up after a bounded
   number of points; `walk_isSome` shows the bound that is always enough when no
   point is its own ancestor, and `mem_walk` that the walk is the lineage.
   `latest_common` reads the latest point common to several lineages off the
   walk of any one of them. -/
namespace Lineage
open Relation

variable {α : Type} {parent : α → Option α}

/-- `p` is the parent of `a`. -/
def Step (parent : α → Option α) (a p : α) : Prop := parent a = some p

/-- `v` is `a` or one of its ancestors. -/
def Anc (parent : α → Option α) : α → α → Prop := ReflTransGen (Step parent)

/-- Every step to a parent lowers `rank`: no point is its own ancestor. -/
def Ranked (parent : α → Option α) (rank : α → Nat) : Prop :=
  ∀ a p, parent a = some p → rank p < rank a

/-- No point is reached from itself by one step or more. -/
def Loopfree (parent : α → Option α) : Prop := ∀ a, ¬ TransGen (Step parent) a a

theorem step_unique : Relator.RightUnique (Step parent) := by
  intro a p q hp hq
  exact Option.some.inj (hp.symm.trans hq)

theorem anc_refl (a : α) : Anc parent a a := ReflTransGen.refl

theorem anc_trans {a b c : α} (h₁ : Anc parent a b) (h₂ : Anc parent b c) : Anc parent a c :=
  ReflTransGen.trans h₁ h₂

theorem anc_rank_le {rank : α → Nat} (hr : Ranked parent rank) {a v : α} (h : Anc parent a v) :
    rank v ≤ rank a := by
  induction h with
  | refl => exact Nat.le_refl _
  | tail _ hs ih => exact Nat.le_trans (Nat.le_of_lt (hr _ _ hs)) ih

/-- A rank leaves no room for loops. -/
theorem ranked_loopfree {rank : α → Nat} (hr : Ranked parent rank) : Loopfree parent := by
  intro a hloop
  obtain ⟨p, hp, hpa⟩ := TransGen.head'_iff.mp hloop
  exact Nat.lt_irrefl _ (Nat.lt_of_le_of_lt (anc_rank_le hr hpa) (hr a p hp))

/-- An ancestor is the point itself or an ancestor of its parent. -/
theorem anc_cases {a v : α} (h : Anc parent a v) :
    v = a ∨ ∃ p, parent a = some p ∧ Anc parent p v := by
  rcases ReflTransGen.cases_head h with rfl | ⟨p, hp, hv⟩
  · exact Or.inl rfl
  · exact Or.inr ⟨p, hp, hv⟩

theorem anc_of_none {a v : α} (ha : parent a = none) (h : Anc parent a v) : v = a := by
  rcases anc_cases h with h | ⟨p, hp, _⟩
  · exact h
  · rw [ha] at hp; cases hp

/-! ## The walk -/

/-- The lineage of `a`, newest first; `none` if it has more than `n` points. -/
def walk (parent : α → Option α) : Nat → α → Option (List α)
  | 0, _ => none
  | n + 1, a =>
    match parent a with
    | none => some [a]
    | some p => (walk parent n p).map (a :: ·)

theorem walk_succ_some {n : Nat} {a p : α} {l : List α} (hp : parent a = some p)
    (h : walk parent (n + 1) a = some l) : ∃ t, walk parent n p = some t ∧ l = a :: t := by
  simp only [walk, hp] at h
  obtain ⟨t, ht, hl⟩ := Option.map_eq_some_iff.mp h
  exact ⟨t, ht, hl.symm⟩

theorem walk_succ_none {n : Nat} {a : α} {l : List α} (hp : parent a = none)
    (h : walk parent (n + 1) a = some l) : l = [a] := by
  simp only [walk, hp] at h
  exact (Option.some.inj h).symm

theorem mem_walk : ∀ {n : Nat} {a v : α} {l : List α}, walk parent n a = some l →
    (v ∈ l ↔ Anc parent a v)
  | 0, _, _, _, h => by simp [walk] at h
  | n + 1, a, v, l, h => by
    cases hp : parent a with
    | none =>
      rw [walk_succ_none hp h, List.mem_singleton]
      refine ⟨?_, anc_of_none hp⟩
      rintro rfl
      exact anc_refl v
    | some p =>
      obtain ⟨t, ht, rfl⟩ := walk_succ_some hp h
      rw [List.mem_cons, mem_walk ht]
      constructor
      · rintro (rfl | hv)
        · exact anc_refl v
        · exact ReflTransGen.head hp hv
      · intro hv
        rcases anc_cases hv with rfl | ⟨q, hq, hv⟩
        · exact Or.inl rfl
        · rw [hp] at hq; cases hq; exact Or.inr hv

/-- Each point of a walk has every later point among its ancestors. -/
theorem walk_pairwise : ∀ {n : Nat} {a : α} {l : List α}, walk parent n a = some l →
    l.Pairwise (Anc parent)
  | 0, _, _, h => by simp [walk] at h
  | n + 1, a, l, h => by
    cases hp : parent a with
    | none => rw [walk_succ_none hp h]; exact List.pairwise_singleton _ _
    | some p =>
      obtain ⟨t, ht, rfl⟩ := walk_succ_some hp h
      refine List.pairwise_cons.mpr ⟨?_, walk_pairwise ht⟩
      intro v hv
      exact ReflTransGen.head hp ((mem_walk ht).mp hv)

/-- One point more than the points above `a` that have a parent is enough. -/
theorem walk_isSome [DecidableEq α] (hloop : Loopfree parent) :
    ∀ (s : List α) (a : α), (∀ v, Anc parent a v → parent v ≠ none → v ∈ s) →
      (walk parent (s.length + 1) a).isSome
  | s, a, hs => by
    cases hp : parent a with
    | none => simp [walk, hp]
    | some p =>
      have ha : a ∈ s := hs a (anc_refl a) (by simp [hp])
      have hlen : (s.erase a).length + 1 = s.length := by
        rw [List.length_erase_of_mem ha]
        have := List.length_pos_of_mem ha
        omega
      -- `a` is not above its parent, so it can be dropped
      have hs' : ∀ v, Anc parent p v → parent v ≠ none → v ∈ s.erase a := by
        intro v hv hn
        have hne : v ≠ a := by
          rintro rfl
          exact hloop v (TransGen.head' hp hv)
        exact (List.mem_erase_of_ne hne).mpr (hs v (ReflTransGen.head hp hv) hn)
      have ih := walk_isSome hloop (s.erase a) p hs'
      rw [hlen] at ih
      simp only [walk, hp, Option.isSome_map]
      exact ih
termination_by s => s.length
decreasing_by omega

/-! ## Walks that are over -/

theorem walk_unique : ∀ {n m : Nat} {a : α} {l l' : List α}, walk parent n a = some l →
    walk parent m a = some l' → l = l'
  | 0, _, _, _, _, h, _ => by simp [walk] at h
  | n + 1, 0, _, _, _, _, h' => by simp [walk] at h'
  | n + 1, m + 1, a, l, l', h, h' => by
    cases hp : parent a with
    | none => rw [walk_succ_none hp h, walk_succ_none hp h']
    | some p =>
      obtain ⟨t, ht, rfl⟩ := walk_succ_some hp h
      obtain ⟨t', ht', rfl⟩ := walk_succ_some hp h'
      rw [walk_unique ht ht']

/-- The walk from a proper ancestor is over earlier. -/
theorem walk_above {a v : α} (h : TransGen (Step parent) a v) : ∀ {n : Nat} {l : List α},
    walk parent n a = some l → ∃ m t, walk parent m v = some t ∧ t.length < l.length := by
  induction h with
  | single hp =>
    intro n l hl
    cases n with
    | zero => simp [walk] at hl
    | succ n =>
      obtain ⟨t, ht, rfl⟩ := walk_succ_some hp hl
      exact ⟨n, t, ht, Nat.lt_succ_self _⟩
  | tail _ hp ih =>
    intro n l hl
    obtain ⟨m, t, ht, hlen⟩ := ih hl
    cases m with
    | zero => simp [walk] at ht
    | succ m =>
      obtain ⟨t', ht', rfl⟩ := walk_succ_some hp ht
      exact ⟨m, t', ht', Nat.lt_of_succ_lt hlen⟩

/-- A point with a walk that ends is not reached from itself. -/
theorem walk_loopfree {n : Nat} {a : α} {l : List α} (h : walk parent n a = some l) :
    ¬ TransGen (Step parent) a a := by
  intro hloop
  obtain ⟨m, t, ht, hlen⟩ := walk_above hloop h
  rw [walk_unique ht h] at hlen
  exact Nat.lt_irrefl _ hlen

theorem walk_nodup : ∀ {n : Nat} {a : α} {l : List α}, walk parent n a = some l → l.Nodup
  | 0, _, _, h => by simp [walk] at h
  | n + 1, a, l, h => by
    cases hp : parent a with
    | none => rw [walk_succ_none hp h]; simp
    | some p =>
      obtain ⟨t, ht, rfl⟩ := walk_succ_some hp h
      refine List.nodup_cons.mpr ⟨?_, walk_nodup ht⟩
      intro hmem
      exact walk_loopfree h (TransGen.head' hp ((mem_walk ht).mp hmem))

/-! ## The latest common point -/

/-- `v` is in the lineage of every point of `as`. -/
def Common (parent : α → Option α) (as : List α) (v : α) : Prop := ∀ a ∈ as, Anc parent a v

/-- `r` is common to the lineages of `as`, and every other common point is above it. -/
def LatestCommon (parent : α → Option α) (as : List α) (r : α) : Prop :=
  Common parent as r ∧ ∀ v, Common parent as v → Anc parent r v

/-- There is one latest common point at most, where one walk is over. -/
theorem latestCommon_unique {as : List α} {n : Nat} {a r r' : α} {l : List α} (ha : a ∈ as)
    (hl : walk parent n a = some l) (h : LatestCommon parent as r)
    (h' : LatestCommon parent as r') : r = r' := by
  rcases reflTransGen_iff_eq_or_transGen.mp (h.2 r' h'.1) with he | htrans
  · exact he.symm
  · exfalso
    have hloop : TransGen (Step parent) r r := htrans.trans_left (h'.2 r h.1)
    rcases reflTransGen_iff_eq_or_transGen.mp (h.1 a ha) with he | habove
    · rw [← he] at hl
      exact walk_loopfree hl hloop
    · obtain ⟨m, t, ht, _⟩ := walk_above habove hl
      exact walk_loopfree ht hloop

/-- The first common point on a walk from a point of `as` is the latest one. -/
theorem latest_common {as : List α} {n : Nat} {a r : α} {l : List α} {p : α → Bool} (ha : a ∈ as)
    (hl : walk parent n a = some l) (hp : ∀ v, p v = true ↔ Common parent as v)
    (hf : l.find? p = some r) : LatestCommon parent as r := by
  obtain ⟨hr, before, after, rfl, hbefore⟩ := List.find?_eq_some_iff_append.mp hf
  refine ⟨(hp r).mp hr, ?_⟩
  intro v hv
  have hmem : v ∈ before ++ r :: after := (mem_walk hl).mpr (hv a ha)
  rcases List.mem_append.mp hmem with h | h
  · have hnot := hbefore v h
    rw [(hp v).mpr hv] at hnot
    simp at hnot
  · rcases List.mem_cons.mp h with rfl | h
    · exact anc_refl v
    · have hpw := (List.pairwise_append.mp (walk_pairwise hl)).2.1
      exact (List.pairwise_cons.mp hpw).1 v h

/-- No point of the walk is common exactly when no point at all is. -/
theorem no_common {as : List α} {n : Nat} {a : α} {l : List α} {p : α → Bool} (ha : a ∈ as)
    (hl : walk parent n a = some l) (hp : ∀ v, p v = true ↔ Common parent as v) :
    l.find? p = none ↔ ∀ v, ¬ Common parent as v := by
  rw [List.find?_eq_none]
  constructor
  · intro h v hv
    exact h v ((mem_walk hl).mpr (hv a ha)) ((hp v).mpr hv)
  · intro h v _ hv
    exact h v ((hp v).mp hv)

end Lineage
