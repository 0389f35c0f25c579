import Mathlib.Data.List.Sort
import Mathlib.Data.List.Count
import Mathlib.Data.List.Perm.Basic

/- Windows of sorted lists. `Window all skip limit page` says that `page` is the
   window `[skip, skip + limit)` of all the elements in order, where the order is a
   total preorder and elements that tie may stand either way.

   Cutting the window out of a list that is not in order and sorting what was cut
   gives that window exactly when what was cut belongs there: of the elements left
   out no more come before one of the window than there are places before it, and
   no more behind one of it than there are places behind it (`window_sort_iff`).
   The windows of a list side by side, each sorted, are the whole list, and it is
   in order exactly when every one of them is right (`windows_sorted_iff`). -/
namespace Windows

variable {α : Type}

/-- The window `[skip, skip + limit)` of a list. -/
def cut (l : List α) (skip limit : Nat) : List α := (l.take (skip + limit)).drop skip

/-- The elements outside of the window. -/
def outside (l : List α) (skip limit : Nat) : List α := l.take skip ++ l.drop (skip + limit)

theorem take_cut_drop (l : List α) (skip limit : Nat) :
    l.take skip ++ (cut l skip limit ++ l.drop (skip + limit)) = l := by
  have hfirst : l.take skip = (l.take (skip + limit)).take skip := by
    rw [List.take_take, Nat.min_eq_left (Nat.le_add_right skip limit)]
  rw [cut, hfirst, ← List.append_assoc, List.take_append_drop, List.take_append_drop]

theorem outside_cut_perm (l : List α) (skip limit : Nat) :
    (outside l skip limit ++ cut l skip limit).Perm l := by
  have h : (outside l skip limit ++ cut l skip limit).Perm
      (l.take skip ++ (cut l skip limit ++ l.drop (skip + limit))) := by
    rw [outside, List.append_assoc]
    exact List.perm_append_comm.append_left _
  rw [take_cut_drop] at h
  exact h

theorem cut_append {a b : List α} {skip : Nat} (h : a.length = skip) (limit : Nat) :
    cut (a ++ b) skip limit = b.take limit := by
  subst h
  rw [cut, List.take_length_add_append, List.drop_left]

theorem length_cut (l : List α) (skip limit : Nat) :
    (cut l skip limit).length = min limit (l.length - skip) := by
  rw [cut, List.length_drop, List.length_take]
  omega

theorem length_outside {l : List α} {skip : Nat} (h : skip ≤ l.length) (limit : Nat) :
    skip ≤ (outside l skip limit).length := by
  rw [outside, List.length_append, List.length_take, Nat.min_eq_left h]
  exact Nat.le_add_right _ _

/-- The windows of consecutive pages are a prefix of the list. -/
theorem flatMap_cut (l : List α) (limit count : Nat) :
    (List.range count).flatMap (fun k => cut l (k * limit) limit) = l.take (count * limit) := by
  unfold cut
  induction count with
  | zero => simp
  | succ count ih =>
    rw [List.range_succ, List.flatMap_append, ih, List.flatMap_singleton, Nat.succ_mul]
    have hfirst : l.take (count * limit) = (l.take (count * limit + limit)).take (count * limit) := by
      rw [List.take_take, Nat.min_eq_left (by omega)]
    rw [hfirst, List.take_append_drop]

/-- Lists as long as the windows of a list of `n` elements stand where the windows stand. -/
theorem cut_flatMap {limit : Nat} (hlimit : 0 < limit) :
    ∀ (count n : Nat) (f : Nat → List α), (∀ k, (f k).length = min limit (n - k * limit)) →
      ∀ k < count, cut ((List.range count).flatMap f) (k * limit) limit = f k
  | 0, _, _, _, _, hk => absurd hk (Nat.not_lt_zero _)
  | count + 1, n, f, hlength, k, hk => by
    have hsplit : (List.range (count + 1)).flatMap f =
        f 0 ++ (List.range count).flatMap (fun k => f (k + 1)) := by
      rw [List.range_succ_eq_map, List.flatMap_cons, List.flatMap_map]
    have hzero : (f 0).length = min limit n := by
      rw [hlength, Nat.zero_mul, Nat.sub_zero]
    have hrest : ∀ k, (f (k + 1)).length = min limit ((n - limit) - k * limit) := by
      intro k
      rw [hlength, Nat.succ_mul, Nat.sub_sub, Nat.add_comm limit]
    rw [hsplit]
    by_cases hn : limit ≤ n
    · have hfull : (f 0).length = limit := by rw [hzero, Nat.min_eq_left hn]
      cases k with
      | zero => rw [cut, Nat.zero_mul, Nat.zero_add, List.drop_zero, ← hfull, List.take_left]
      | succ k =>
        have ih := cut_flatMap hlimit count (n - limit) (fun k => f (k + 1)) hrest k
          (Nat.lt_of_succ_lt_succ hk)
        rw [cut, Nat.succ_mul, Nat.add_comm (k * limit) limit, ← hfull, Nat.add_assoc,
          List.take_length_add_append, List.drop_length_add_append, hfull]
        exact ih
    · -- the first list holds everything
      have hempty : ∀ k, f (k + 1) = [] := by
        intro k
        refine List.eq_nil_of_length_eq_zero ?_
        rw [hrest, Nat.sub_eq_zero_of_le (by omega : n ≤ limit), Nat.zero_sub, Nat.min_zero]
      have hnil : (List.range count).flatMap (fun k => f (k + 1)) = [] := by simp [hempty]
      rw [hnil, List.append_nil]
      cases k with
      | zero =>
        rw [cut, Nat.zero_mul, Nat.zero_add, List.drop_zero, List.take_of_length_le]
        omega
      | succ k =>
        rw [hempty, cut, List.drop_eq_nil_iff, List.length_take]
        have : limit ≤ (k + 1) * limit := Nat.le_mul_of_pos_left limit (Nat.succ_pos k)
        omega

/-! ## Order -/

section Order
variable (r : α → α → Prop)

/-- `page` is the window of all the elements in order. -/
def Window (all : List α) (skip limit : Nat) (page : List α) : Prop :=
  ∃ sorted : List α, sorted.Perm all ∧ sorted.Pairwise r ∧ page = cut sorted skip limit

variable [DecidableRel r]

/-- How many of the elements left out come before one of the window. -/
def before (left page : List α) : Nat := left.countP (fun o => page.any (fun x => !decide (r x o)))

/-- How many of the elements left out come behind one of the window. -/
def behind (left page : List α) : Nat := left.countP (fun o => page.any (fun x => !decide (r o x)))

/-- What stands in the window of the list belongs there. -/
def InPlace (l : List α) (skip limit : Nat) : Prop :=
  before r (outside l skip limit) (cut l skip limit) ≤ skip ∧
  behind r (outside l skip limit) (cut l skip limit) ≤ (outside l skip limit).length - skip

instance (l : List α) (skip limit : Nat) : Decidable (InPlace r l skip limit) :=
  inferInstanceAs (Decidable (_ ∧ _))

variable {r}

theorem before_perm {left left' page page' : List α} (hl : left.Perm left')
    (hp : page.Perm page') : before r left page = before r left' page' := by
  unfold before
  rw [hl.countP_eq]
  refine List.countP_congr ?_
  intro o _
  simp [hp.mem_iff]

theorem behind_perm {left left' page page' : List α} (hl : left.Perm left')
    (hp : page.Perm page') : behind r left page = behind r left' page' := by
  unfold behind
  rw [hl.countP_eq]
  refine List.countP_congr ?_
  intro o _
  simp [hp.mem_iff]

theorem before_append (left left' page : List α) :
    before r (left ++ left') page = before r left page + before r left' page :=
  List.countP_append

theorem behind_append (left left' page : List α) :
    behind r (left ++ left') page = behind r left page + behind r left' page :=
  List.countP_append

theorem before_eq_zero {left page : List α} (h : ∀ x ∈ page, ∀ o ∈ left, r x o) :
    before r left page = 0 := by
  refine List.countP_eq_zero.mpr ?_
  intro o ho
  simpa using fun x hx => h x hx o ho

theorem behind_eq_zero {left page : List α} (h : ∀ x ∈ page, ∀ o ∈ left, r o x) :
    behind r left page = 0 := by
  refine List.countP_eq_zero.mpr ?_
  intro o ho
  simpa using fun x hx => h x hx o ho

theorem before_eq_length {left page : List α} (h : ∀ o ∈ left, ∃ x ∈ page, ¬ r x o) :
    before r left page = left.length := by
  refine List.countP_eq_length.mpr ?_
  intro o ho
  simpa using h o ho

theorem behind_eq_length {left page : List α} (h : ∀ o ∈ left, ∃ x ∈ page, ¬ r o x) :
    behind r left page = left.length := by
  refine List.countP_eq_length.mpr ?_
  intro o ho
  simpa using h o ho

theorem before_pos {left page : List α} {o x : α} (ho : o ∈ left) (hx : x ∈ page)
    (h : ¬ r x o) : 0 < before r left page :=
  List.countP_pos_iff.mpr ⟨o, ho, by simpa using ⟨x, hx, h⟩⟩

theorem behind_pos {left page : List α} {o x : α} (ho : o ∈ left) (hx : x ∈ page)
    (h : ¬ r o x) : 0 < behind r left page :=
  List.countP_pos_iff.mpr ⟨o, ho, by simpa using ⟨x, hx, h⟩⟩

/-- In order, the places before and behind a window bound the counts. -/
theorem window_counts {l page : List α} {skip limit : Nat} (hskip : skip ≤ l.length)
    (hpage : page.Perm (cut l skip limit)) (h : Window r l skip limit page) :
    InPlace r l skip limit := by
  obtain ⟨sorted, hperm, hsorted, rfl⟩ := h
  have hparts := take_cut_drop sorted skip limit
  rw [← hparts, List.pairwise_append, List.pairwise_append] at hsorted
  obtain ⟨_, ⟨_, _, hbehind⟩, hbefore⟩ := hsorted
  -- the elements left out are those before and behind the window
  have hleft : (sorted.take skip ++ sorted.drop (skip + limit)).Perm (outside l skip limit) := by
    have h₁ := (outside_cut_perm sorted skip limit).trans
      (hperm.trans (outside_cut_perm l skip limit).symm)
    exact (List.perm_append_right_iff _).mp (h₁.trans (hpage.symm.append_left _))
  have hlength : (sorted.take skip).length = skip := by
    rw [List.length_take, hperm.length_eq, Nat.min_eq_left hskip]
  refine ⟨?_, ?_⟩
  · rw [← before_perm hleft hpage, before_append, before_eq_zero hbehind, Nat.add_zero]
    exact Nat.le_trans List.countP_le_length (Nat.le_of_eq hlength)
  · rw [← behind_perm hleft hpage, ← hleft.length_eq, behind_append,
      behind_eq_zero (fun x hx o ho => hbefore o ho x (List.mem_append_left _ hx)), Nat.zero_add,
      List.length_append, hlength, Nat.add_sub_cancel_left]
    exact List.countP_le_length

variable [Std.Total r] [IsTrans α r]

/-- With the counts bounded, the elements left out can be put before and behind the window. -/
theorem window_of_counts {l : List α} {skip limit : Nat} (hskip : skip ≤ l.length)
    (h : InPlace r l skip limit) :
    Window r l skip limit ((cut l skip limit).insertionSort r) := by
  obtain ⟨hbefore, hbehind⟩ := h
  generalize hpage : (cut l skip limit).insertionSort r = page
  have hpp : page.Perm (cut l skip limit) := hpage ▸ List.perm_insertionSort r _
  have hps : page.Pairwise r := hpage ▸ List.pairwise_insertionSort r _
  generalize hrest : (outside l skip limit).insertionSort r = rest
  have hrp : rest.Perm (outside l skip limit) := hrest ▸ List.perm_insertionSort r _
  have hrs : rest.Pairwise r := hrest ▸ List.pairwise_insertionSort r _
  have hlength : skip ≤ rest.length := hrp.length_eq ▸ length_outside hskip limit
  have htake : (rest.take skip).length = skip := by rw [List.length_take, Nat.min_eq_left hlength]
  rw [← List.take_append_drop skip rest, List.pairwise_append] at hrs
  obtain ⟨hfirst, hlast, hcross⟩ := hrs
  have hcount : before r rest page ≤ skip := by rwa [before_perm hrp hpp]
  have hcount' : behind r rest page ≤ rest.length - skip := by
    rwa [behind_perm hrp hpp, hrp.length_eq]
  rw [← List.take_append_drop skip rest, before_append] at hcount
  rw [← List.take_append_drop skip rest, behind_append, List.take_append_drop] at hcount'
  -- one of the first part behind an element of the window has the whole last part behind it too
  have hleft : ∀ b ∈ rest.take skip, ∀ x ∈ page, r b x := by
    intro b hb x hx
    by_contra hnot
    have hall : behind r (rest.drop skip) page = (rest.drop skip).length := by
      refine behind_eq_length ?_
      intro c hc
      exact ⟨x, hx, fun hcx => hnot (IsTrans.trans b c x (hcross b hb c hc) hcx)⟩
    have hone := behind_pos hb hx hnot
    rw [hall, List.length_drop] at hcount'
    omega
  have hright : ∀ x ∈ page, ∀ c ∈ rest.drop skip, r x c := by
    intro x hx c hc
    by_contra hnot
    have hall : before r (rest.take skip) page = (rest.take skip).length := by
      refine before_eq_length ?_
      intro b hb
      exact ⟨x, hx, fun hxb => hnot (IsTrans.trans x b c hxb (hcross b hb c hc))⟩
    have hone := before_pos hc hx hnot
    rw [hall, htake] at hcount
    omega
  refine ⟨rest.take skip ++ (page ++ rest.drop skip), ?_, ?_, ?_⟩
  · have h₁ : (rest.take skip ++ (page ++ rest.drop skip)).Perm (rest ++ page) := by
      refine (List.perm_append_comm.append_left _).trans ?_
      rw [← List.append_assoc, List.take_append_drop]
    exact h₁.trans ((hrp.append hpp).trans (outside_cut_perm l skip limit))
  · rw [List.pairwise_append, List.pairwise_append]
    refine ⟨hfirst, ⟨hps, hlast, hright⟩, ?_⟩
    intro b hb y hy
    rcases List.mem_append.mp hy with hy | hy
    · exact hleft b hb y hy
    · exact hcross b hb y hy
  · have hpl : page.length = min limit (l.length - skip) := by
      rw [hpp.length_eq, length_cut]
    have hrl : rest.length + page.length = l.length := by
      rw [← List.length_append, (hrp.append hpp).length_eq, (outside_cut_perm l skip limit).length_eq]
    rw [cut_append htake, List.take_append]
    by_cases hfull : page.length = limit
    · rw [← hfull, List.take_length, Nat.sub_self, List.take_zero, List.append_nil]
    · -- a shorter window ends the list
      have hend : rest.drop skip = [] := List.drop_eq_nil_of_le (by omega)
      rw [hend, List.take_nil, List.append_nil, List.take_of_length_le (by omega)]

/-- What is cut out of a list and then sorted is the window exactly when it belongs there. -/
theorem window_sort_iff (l : List α) (skip limit : Nat) :
    Window r l skip limit ((cut l skip limit).insertionSort r) ↔ InPlace r l skip limit := by
  by_cases hskip : skip ≤ l.length
  · exact ⟨window_counts hskip (List.perm_insertionSort r _), window_of_counts hskip⟩
  · -- behind the end there is nothing
    have hnil : ∀ l' : List α, l'.length = l.length → cut l' skip limit = [] := by
      intro l' hl'
      refine List.eq_nil_of_length_eq_zero ?_
      rw [length_cut]
      omega
    refine iff_of_true ?_ ?_
    · refine ⟨l.insertionSort r, List.perm_insertionSort r l, List.pairwise_insertionSort r l, ?_⟩
      rw [hnil l rfl, hnil _ (List.length_insertionSort r l)]
      rfl
    · unfold InPlace
      rw [hnil l rfl, before_eq_zero (by simp), behind_eq_zero (by simp)]
      exact ⟨Nat.zero_le _, Nat.zero_le _⟩

/-! ## Windows side by side -/

/-- Two arrangements in order agree up to ties: what stands before a place in one is not behind
what stands after it in the other. -/
theorem sorted_across {l l' : List α} (hperm : l.Perm l') (hl : l.Pairwise r) (hl' : l'.Pairwise r)
    {place : Nat} {x y : α} (hx : x ∈ l.take place) (hy : y ∈ l'.drop place) : r x y := by
  by_contra hnot
  rw [← List.take_append_drop place l, List.pairwise_append] at hl
  rw [← List.take_append_drop place l', List.pairwise_append] at hl'
  have htotal : ∀ a, r a a := fun a => (Std.Total.total (r := r) a a).elim id id
  -- in `l` at most the elements before the place come strictly before `x`, in `l'` one more does
  have h₁ : before r l [x] < place + 1 := by
    have hrest : before r (l.drop place) [x] = 0 := by
      refine before_eq_zero ?_
      intro z hz o ho
      rw [List.mem_singleton.mp hz]
      exact hl.2.2 x hx o ho
    rw [← List.take_append_drop place l, before_append, hrest]
    have h₂ : before r (l.take place) [x] ≤ (l.take place).length := List.countP_le_length
    rw [List.length_take] at h₂
    omega
  have hplace : place < l'.length := by
    have := List.length_pos_of_mem hy
    rw [List.length_drop] at this
    omega
  have h₂ : place + 1 ≤ before r l' [x] := by
    have hfront : before r (l'.take place) [x] = (l'.take place).length := by
      refine before_eq_length ?_
      intro o ho
      exact ⟨x, List.mem_singleton_self x,
        fun hxo => hnot (IsTrans.trans x o y hxo (hl'.2.2 o ho y hy))⟩
    rw [← List.take_append_drop place l', before_append, hfront]
    have := before_pos hy (List.mem_singleton_self x) hnot
    rw [List.length_take, Nat.min_eq_left (Nat.le_of_lt hplace)]
    omega
  rw [before_perm hperm (List.Perm.refl [x])] at h₁
  omega

/-- The sorted windows of a list, one after the other. -/
def pages (r : α → α → Prop) [DecidableRel r] (l : List α) (limit count : Nat) : List (List α) :=
  (List.range count).map (fun k => (cut l (k * limit) limit).insertionSort r)

omit [Std.Total r] [IsTrans α r] in
theorem pages_perm {l : List α} {limit count : Nat} (hcount : l.length ≤ count * limit) :
    (pages r l limit count).flatten.Perm l := by
  have h : (pages r l limit count).flatten.Perm
      ((List.range count).flatMap (fun k => cut l (k * limit) limit)) :=
    List.Perm.flatMap_left _ (fun k _ => List.perm_insertionSort r _)
  rw [flatMap_cut, List.take_of_length_le hcount] at h
  exact h

/-- The windows make up the whole list in order exactly when each of them is right. -/
theorem windows_sorted_iff {l : List α} {limit count : Nat} (hlimit : 0 < limit)
    (hcount : l.length ≤ count * limit) :
    (pages r l limit count).flatten.Pairwise r ↔
      ∀ k < count, InPlace r l (k * limit) limit := by
  constructor
  · intro hsorted k hk
    rw [← window_sort_iff]
    refine ⟨_, pages_perm hcount, hsorted, ?_⟩
    have hlength : ∀ k, ((cut l (k * limit) limit).insertionSort r).length =
        min limit (l.length - k * limit) := by
      intro k
      rw [List.length_insertionSort, length_cut]
    exact (cut_flatMap hlimit count l.length _ hlength k hk).symm
  · intro hplace
    show ((List.range count).flatMap _).Pairwise r
    rw [List.pairwise_flatMap]
    refine ⟨fun k _ => List.pairwise_insertionSort r _, ?_⟩
    refine List.pairwise_lt_range.imp_of_mem ?_
    intro i j hi hj hij x hx y hy
    obtain ⟨l₁, hp₁, hs₁, hcut₁⟩ := (window_sort_iff l _ _).mpr (hplace i (List.mem_range.mp hi))
    obtain ⟨l₂, hp₂, hs₂, hcut₂⟩ := (window_sort_iff l _ _).mpr (hplace j (List.mem_range.mp hj))
    rw [hcut₁] at hx
    rw [hcut₂] at hy
    have hle : i * limit + limit ≤ j * limit := by
      rw [← Nat.succ_mul]
      exact Nat.mul_le_mul_right limit hij
    refine @sorted_across _ _ _ _ _ _ _ (hp₁.trans hp₂.symm) hs₁ hs₂ (j * limit) _ _ ?_ ?_
    · exact (List.take_subset_take_left _ hle) (List.mem_of_mem_drop hx)
    · have hsub : (cut l₂ (j * limit) limit).Sublist (l₂.drop (j * limit)) := by
        rw [cut, List.drop_take]
        exact List.take_sublist _ _
      exact hsub.subset hy

end Order
end Windows
