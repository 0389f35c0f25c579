import Mathlib.Data.List.Basic
import Mathlib.Data.List.Count

/- Order in a list of what happened, kept by appending to it.

   `Never p q l`: once there is an entry with `p`, no entry with `q` comes after it.
   `Preceded p q l`: before every entry with `p` there is one with `q`.
   `Followed p q l`: after every entry with `p` there is one with `q`.
   `Between p q r l`: between an entry with `p` and a later one with `q` there is one
   with `r`.
   `Each P l`: every entry is as `P` says of what came before it. -/
namespace Traces

variable {α : Type} {p q r : α → Prop} {l es : List α} {e : α}

/-- No entry with `q` after an entry with `p`. -/
def Never (p q : α → Prop) (l : List α) : Prop := l.Pairwise (fun x y => p x → ¬ q y)

theorem never_nil : Never p q [] := List.Pairwise.nil

theorem never_iff : Never p q l ↔
    ∀ xs x ys, l = xs ++ x :: ys → p x → ∀ y ∈ ys, ¬ q y := by
  refine ⟨fun h xs x ys he hx y hy => ?_, fun h => ?_⟩
  · subst he
    have hsuffix := (List.pairwise_append.mp h).2.1
    exact (List.pairwise_cons.mp hsuffix).1 y hy hx
  · induction l with
    | nil => exact .nil
    | cons a l ih =>
      refine List.pairwise_cons.mpr ⟨fun y hy ha => h [] a l rfl ha y hy, ih ?_⟩
      intro xs x ys he hx y hy
      exact h (a :: xs) x ys (by rw [he, List.cons_append]) hx y hy

/-- Entries without `q` may always come. -/
theorem Never.append (h : Never p q l) (hes : ∀ e ∈ es, ¬ q e) : Never p q (l ++ es) := by
  refine List.pairwise_append.mpr ⟨h, ?_, fun x _ y hy _ => hes y hy⟩
  exact List.pairwise_of_forall_mem_list fun x _ y hy _ => hes y hy

/-- An entry with `q` may come where there is none with `p` yet. -/
theorem Never.concat (h : Never p q l) (he : q e → ∀ x ∈ l, ¬ p x) : Never p q (l ++ [e]) := by
  refine List.pairwise_append.mpr ⟨h, List.pairwise_singleton _ _, fun x hx y hy hpx hqy => ?_⟩
  rw [List.mem_singleton.mp hy] at hqy
  exact he hqy x hx hpx

/-- Before every entry with `p`, one with `q`. -/
def Preceded (p q : α → Prop) (l : List α) : Prop :=
  ∀ xs x ys, l = xs ++ x :: ys → p x → ∃ y ∈ xs, q y

/-- Where there is no entry with `p`. -/
theorem Preceded.of_none (h : ∀ x ∈ l, ¬ p x) : Preceded p q l := by
  intro xs x ys he hx
  refine absurd hx (h x ?_)
  rw [he]
  simp

theorem Preceded.concat (h : Preceded p q l) (he : p e → ∃ y ∈ l, q y) :
    Preceded p q (l ++ [e]) := by
  intro xs x ys hl hx
  obtain rfl | ⟨ys, y, rfl⟩ := List.eq_nil_or_concat ys
  · obtain ⟨rfl, hsame⟩ := List.append_inj' hl rfl
    obtain rfl := List.singleton_inj.mp hsame
    exact he hx
  · rw [List.concat_eq_append, ← List.cons_append, ← List.append_assoc] at hl
    obtain ⟨hsame, -⟩ := List.append_inj' hl rfl
    exact h xs x ys hsame hx

/-- Entries without `p` may always come. -/
theorem Preceded.append (h : Preceded p q l) (hes : ∀ e ∈ es, ¬ p e) : Preceded p q (l ++ es) := by
  induction es generalizing l with
  | nil => rwa [List.append_nil]
  | cons e es ih =>
    rw [List.append_cons]
    refine ih (h.concat fun hp => ?_) fun e' he' => hes e' (List.mem_cons_of_mem _ he')
    exact absurd hp (hes e List.mem_cons_self)

/-- After every entry with `p`, one with `q`. -/
def Followed (p q : α → Prop) (l : List α) : Prop :=
  ∀ xs x ys, l = xs ++ x :: ys → p x → ∃ y ∈ ys, q y

/-- Entries without `p` may always come. -/
theorem Followed.append (h : Followed p q l) (hes : ∀ e ∈ es, ¬ p e) : Followed p q (l ++ es) := by
  intro xs x ys he hx
  obtain ⟨zs, hxs, hzs⟩ | ⟨zs, hl, hys⟩ := List.append_eq_append_iff.mp he
  · -- the entry with `p` would be one of those that came
    refine absurd hx (hes x ?_)
    rw [hzs]
    simp
  · cases zs with
    | nil =>
      refine absurd hx (hes x ?_)
      rw [List.nil_append] at hys
      rw [← hys]
      exact List.mem_cons_self
    | cons z zs =>
      obtain ⟨rfl, hrest⟩ := List.cons.inj hys
      obtain ⟨y, hy, hq⟩ := h xs x zs hl hx
      exact ⟨y, by rw [hrest]; exact List.mem_append_left _ hy, hq⟩

/-- An entry with `q` that comes last. -/
theorem followed_concat (l : List α) (hq : q e) (hp : ¬ p e) : Followed p q (l ++ [e]) := by
  intro xs x ys he hx
  obtain rfl | ⟨ys, y, rfl⟩ := List.eq_nil_or_concat ys
  · obtain ⟨-, hsame⟩ := List.append_inj' he rfl
    obtain rfl := List.singleton_inj.mp hsame
    exact absurd hx hp
  · rw [List.concat_eq_append, ← List.cons_append, ← List.append_assoc] at he
    obtain ⟨-, hsame⟩ := List.append_inj' he rfl
    obtain rfl := List.singleton_inj.mp hsame
    exact ⟨e, by simp, hq⟩

/-- Between an entry with `p` and a later one with `q`, one with `r`. -/
def Between (p q r : α → Prop) (l : List α) : Prop :=
  ∀ xs x ys y zs, l = xs ++ x :: (ys ++ y :: zs) → p x → q y → ∃ z ∈ ys, r z

theorem between_nil : Between p q r [] := by
  intro xs x ys y zs he
  simp at he

theorem Between.concat (h : Between p q r l) (he : q e → Followed p r l) :
    Between p q r (l ++ [e]) := by
  intro xs x ys y zs hl hx hy
  obtain rfl | ⟨zs, z, rfl⟩ := List.eq_nil_or_concat zs
  · rw [← List.cons_append, ← List.append_assoc] at hl
    obtain ⟨rfl, hsame⟩ := List.append_inj' hl rfl
    obtain rfl := List.singleton_inj.mp hsame
    exact he hy xs x ys rfl hx
  · rw [List.concat_eq_append, ← List.cons_append, ← List.append_assoc, ← List.cons_append,
      ← List.append_assoc] at hl
    obtain ⟨rfl, -⟩ := List.append_inj' hl rfl
    exact h xs x ys y zs (by rw [List.append_assoc, List.cons_append]) hx hy

/-- Entries without `q` may always come. -/
theorem Between.append (h : Between p q r l) (hes : ∀ e ∈ es, ¬ q e) :
    Between p q r (l ++ es) := by
  induction es generalizing l with
  | nil => rwa [List.append_nil]
  | cons e es ih =>
    rw [List.append_cons]
    refine ih (h.concat fun hq => ?_) fun e' he' => hes e' (List.mem_cons_of_mem _ he')
    exact absurd hq (hes e List.mem_cons_self)

/-- Every entry, with what came before it. -/
def Each (P : List α → α → Prop) (l : List α) : Prop := ∀ xs x ys, l = xs ++ x :: ys → P xs x

theorem each_nil (P : List α → α → Prop) : Each P [] := by
  intro xs x ys he
  simp at he

theorem Each.concat {P : List α → α → Prop} (h : Each P l) (he : P l e) : Each P (l ++ [e]) := by
  intro xs x ys hl
  obtain rfl | ⟨ys, y, rfl⟩ := List.eq_nil_or_concat ys
  · obtain ⟨rfl, hsame⟩ := List.append_inj' hl rfl
    obtain rfl := List.singleton_inj.mp hsame
    exact he
  · rw [List.concat_eq_append, ← List.cons_append, ← List.append_assoc] at hl
    obtain ⟨hsame, -⟩ := List.append_inj' hl rfl
    exact h xs x ys hsame

/-- Entries of which `P` says nothing may always come. -/
theorem Each.append {P : List α → α → Prop} (h : Each P l) (hes : ∀ e ∈ es, ∀ xs, P xs e) :
    Each P (l ++ es) := by
  induction es generalizing l with
  | nil => rwa [List.append_nil]
  | cons e es ih =>
    rw [List.append_cons]
    exact ih (h.concat (hes e List.mem_cons_self l)) fun e' he' =>
      hes e' (List.mem_cons_of_mem _ he')

end Traces
