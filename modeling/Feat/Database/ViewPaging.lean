import Feat.Database.EmuCache
import Feat.Lib.Fallible
import Feat.Lib.Windows

/- Paging through a view of the emulated database (`feat.database.emu`:
   `query_view`, `_apply_slice`, `_sort_by_key`).

   `query_view` cuts the window out of the matching rows as the documents yield
   them and sorts what it has cut; without a limit the window also loses its last
   row. So a query is right exactly when the rows that arrive in the window belong
   there, and without a limit when there is nothing to skip or nothing left
   (`queryView_window_iff`). The pages of a view hold each matching row once
   whatever the order; they are in key order exactly when every page is right
   (`queryView_pages_iff`). -/
namespace Feat.Database
open Hash Windows

/-- The options of page `k`. -/
def ViewOptions.page {K : Type} (options : ViewOptions K) (limit k : Nat) : ViewOptions K :=
  { options with skip := k * limit, limit := some limit }

namespace EmuDatabase
variable {Fields K V : Type} [LinearOrder K]

/-- The order of the rows of a query. -/
def RowLe (options : ViewOptions K) (a b : ViewRow Fields K V) : Prop :=
  (if options.descending then keyLe b.key a.key else keyLe a.key b.key) = true

instance (options : ViewOptions K) : DecidableRel (@RowLe Fields K V _ options) :=
  fun a b => inferInstanceAs
    (Decidable ((if options.descending then keyLe b.key a.key else keyLe a.key b.key) = true))

theorem keyLe_total (a b : Option K) : keyLe a b = true ∨ keyLe b a = true := by
  cases a with
  | none => exact Or.inl rfl
  | some k =>
    cases b with
    | none => exact Or.inr rfl
    | some l => simpa [keyLe] using le_total k l

theorem keyLe_trans {a b c : Option K} (h₁ : keyLe a b = true) (h₂ : keyLe b c = true) :
    keyLe a c = true := by
  cases a with
  | none => rfl
  | some k =>
    cases b with
    | none => cases h₁
    | some l =>
      cases c with
      | none => cases h₂
      | some m =>
        simp only [keyLe, decide_eq_true_eq] at h₁ h₂ ⊢
        exact h₁.trans h₂

instance (options : ViewOptions K) : Std.Total (@RowLe Fields K V _ options) := by
  refine ⟨fun a b => ?_⟩
  unfold RowLe
  split
  · exact keyLe_total _ _
  · exact keyLe_total _ _

instance (options : ViewOptions K) :
    IsTrans (ViewRow Fields K V) (@RowLe Fields K V _ options) := by
  refine ⟨fun a b c => ?_⟩
  unfold RowLe
  split
  · exact fun h₁ h₂ => keyLe_trans h₂ h₁
  · exact keyLe_trans

/-- The query does not reduce. -/
def Unreduced (views : Views Fields K V) (name : String) (options : ViewOptions K) : Prop :=
  (views.view name).reduce = none ∨ options.reduce = false

/-- All matching rows, as the documents yield them. -/
def matchingRows (oDocs : HashOrder String) (views : Views Fields K V) (db : EmuDatabase Fields K V)
    (name : String) (options : ViewOptions K) : List (ViewRow Fields K V) :=
  let mapped := performMaps views name (db.iterdocs oDocs) db
  let rows := finishQuery.plain (mapped.1.filter (matchesFilter options))
  if options.includeDocs then includeDocs views mapped.2 rows else rows

/-- The reply is the window of the rows in key order that the query asks for. -/
def RightWindow (options : ViewOptions K) (rows : List (ViewRow Fields K V))
    (reply : Except EmuError (List (ViewRow Fields K V))) : Prop :=
  ∃ page, reply = .ok page ∧
    Window (RowLe options) rows options.skip (options.limit.getD (rows.length - options.skip)) page

/-- The rows in the window, as they arrive, belong there; without a limit there is nothing to
skip or nothing left. -/
def ArrivesInPlace (options : ViewOptions K) (rows : List (ViewRow Fields K V)) : Prop :=
  match options.limit with
  | none => options.skip = 0 ∨ rows.length ≤ options.skip
  | some limit => InPlace (RowLe options) rows options.skip limit

/-! ## One query -/

section Query
variable {oDocs : HashOrder String} {oKeys : HashOrder K} {views : Views Fields K V}
  {db : EmuDatabase Fields K V} {name : String} {options : ViewOptions K}

/-- A query sorts what it has cut out. -/
theorem queryView_cuts (hplain : Unreduced views name options)
    (hok : badOptions views name options = false) :
    (db.queryView oDocs oKeys views name options).1 = .ok
      ((applySlice options (matchingRows oDocs views db name options)).insertionSort
        (RowLe options)) := by
  unfold queryView
  rw [hok]
  simp only [Bool.false_eq_true, if_false, finishQuery, sortByKey, matchingRows]
  rcases hplain with h | h
  · rw [h]
    rfl
  · rw [h]
    cases (views.view name).reduce <;> rfl

omit [LinearOrder K] in
/-- With a limit it is the window that is cut out. -/
theorem applySlice_limit {limit : Nat} (h : options.limit = some limit)
    (rows : List (ViewRow Fields K V)) :
    applySlice options rows = Windows.cut rows options.skip limit := by
  unfold applySlice
  rw [h, if_pos (Or.inr (by simp))]
  rfl

omit [LinearOrder K] in
/-- Without a limit the window loses its last row. -/
theorem applySlice_open (h : options.limit = none) (hskip : 0 < options.skip)
    (rows : List (ViewRow Fields K V)) :
    (applySlice options rows).length = rows.length - 1 - options.skip := by
  unfold applySlice
  rw [h, if_pos (Or.inl hskip)]
  simp only [List.length_drop, List.length_take]
  omega

omit [LinearOrder K] in
theorem applySlice_all (h : options.limit = none) (hskip : options.skip = 0)
    (rows : List (ViewRow Fields K V)) : applySlice options rows = rows := by
  unfold applySlice
  rw [if_neg]
  simp [h, hskip]

theorem queryView_window_iff (hplain : Unreduced views name options)
    (hok : badOptions views name options = false) :
    RightWindow options (matchingRows oDocs views db name options)
        (db.queryView oDocs oKeys views name options).1 ↔
      ArrivesInPlace options (matchingRows oDocs views db name options) := by
  unfold RightWindow ArrivesInPlace
  rw [queryView_cuts hplain hok]
  generalize matchingRows oDocs views db name options = rows
  simp only [Except.ok.injEq, exists_eq_left']
  cases hlimit : options.limit with
  | some limit =>
    rw [applySlice_limit hlimit, Option.getD_some]
    exact window_sort_iff rows options.skip limit
  | none =>
    rw [Option.getD_none]
    constructor
    · rintro ⟨sorted, hperm, _, hpage⟩
      by_contra hnot
      obtain ⟨hskip, hlength⟩ := not_or.mp hnot
      have := congrArg List.length hpage
      rw [List.length_insertionSort, applySlice_open hlimit (Nat.pos_of_ne_zero hskip), length_cut,
        hperm.length_eq] at this
      omega
    · intro h
      refine ⟨rows.insertionSort (RowLe options), List.perm_insertionSort _ rows,
        List.pairwise_insertionSort _ rows, ?_⟩
      rcases Nat.eq_zero_or_pos options.skip with hskip | hskip
      · rw [applySlice_all hlimit hskip, hskip, Windows.cut, List.drop_zero, List.take_of_length_le]
        rw [List.length_insertionSort]
        omega
      · -- nothing is left to return
        have hlength : rows.length ≤ options.skip := h.resolve_left (Nat.ne_of_gt hskip)
        have h₁ : applySlice options rows = [] := by
          refine List.eq_nil_of_length_eq_zero ?_
          rw [applySlice_open hlimit hskip]
          omega
        have h₂ : Windows.cut (rows.insertionSort (RowLe options)) options.skip
            (rows.length - options.skip) = [] := by
          refine List.eq_nil_of_length_eq_zero ?_
          rw [length_cut, List.length_insertionSort]
          omega
        rw [h₁, h₂]
        rfl

end Query

/-! ## Pages -/

section Pages
variable {oDocs : HashOrder String} {oKeys : HashOrder K} {views : Views Fields K V}
  {name : String} {options : ViewOptions K}

/-- The first `count` pages hold every row once, in order. Page `k` is asked of the state
`dbs k`. -/
def PagesInOrder (oDocs : HashOrder String) (oKeys : HashOrder K) (views : Views Fields K V)
    (name : String) (options : ViewOptions K) (rows : List (ViewRow Fields K V))
    (dbs : Nat → EmuDatabase Fields K V) (limit count : Nat) : Prop :=
  ∃ replies, (List.range count).mapM (fun k =>
      ((dbs k).queryView oDocs oKeys views name (options.page limit k)).1) = .ok replies ∧
    replies.flatten.Perm rows ∧ replies.flatten.Pairwise (RowLe options)

theorem queryView_pages_iff (hplain : Unreduced views name options)
    (hok : badOptions views name options = false) {rows : List (ViewRow Fields K V)}
    {dbs : Nat → EmuDatabase Fields K V}
    (hrows : ∀ k, matchingRows oDocs views (dbs k) name options = rows) {limit count : Nat}
    (hlimit : 0 < limit) (hcount : rows.length ≤ count * limit) :
    PagesInOrder oDocs oKeys views name options rows dbs limit count ↔
      ∀ k < count, ArrivesInPlace (options.page limit k) rows := by
  have hpages : (List.range count).mapM (fun k =>
      ((dbs k).queryView oDocs oKeys views name (options.page limit k)).1) =
        .ok (Windows.pages (RowLe options) rows limit count) := by
    refine Fallible.mapM_eq_map ?_
    intro k _
    have hcuts : ((dbs k).queryView oDocs oKeys views name (options.page limit k)).1 = _ :=
      queryView_cuts hplain hok
    rw [hcuts, applySlice_limit rfl]
    have hsame : matchingRows oDocs views (dbs k) name (options.page limit k) = rows := hrows k
    rw [hsame]
    rfl
  unfold PagesInOrder
  rw [hpages]
  simp only [Except.ok.injEq, exists_eq_left']
  rw [windows_sorted_iff hlimit hcount]
  exact and_iff_right (pages_perm hcount)

/-- A query that does not reduce returns the window of the matching rows in key order exactly when
the rows that arrive in the window belong there; the pages of a view, asked while its rows do not
change, are all matching rows in key order exactly when every page is such a window. -/
theorem queryView_windows_iff (oDocs : HashOrder String) (oKeys : HashOrder K)
    (views : Views Fields K V) (name : String) (options : ViewOptions K)
    (hplain : Unreduced views name options) (hok : badOptions views name options = false) :
    (∀ db, RightWindow options (matchingRows oDocs views db name options)
        (db.queryView oDocs oKeys views name options).1 ↔
      ArrivesInPlace options (matchingRows oDocs views db name options)) ∧
    ∀ rows dbs, (∀ k, matchingRows oDocs views (dbs k) name options = rows) →
      ∀ limit count, 0 < limit → rows.length ≤ count * limit →
        (PagesInOrder oDocs oKeys views name options rows dbs limit count ↔
          ∀ k < count, ArrivesInPlace (options.page limit k) rows) :=
  ⟨fun _ => queryView_window_iff hplain hok,
    fun _ _ hrows _ _ hlimit hcount => queryView_pages_iff hplain hok hrows hlimit hcount⟩

end Pages

/-! Two documents, of types `b` and `a`, in a view that has the type for its key. -/

def typeViews : Views Unit String Nat where
  view := fun _ => ⟨fun doc => [(doc.type.getD "", 0)], none⟩
  linkedId := fun _ => none
  truncate := fun _ key => key

def twoTypes : EmuDatabase Unit String Nat :=
  let bare : String → Option (Body Unit) := fun type => some ⟨none, none, false, some type, none, ()⟩
  let db := (EmuDatabase.saveDoc .stored .empty (bare "a") none none).2
  (db.saveDoc .stored (bare "b") none none).2

/-- The window of a query for the rows of `twoTypes`. -/
def windowOptions (skip : Nat) (limit : Option Nat) : ViewOptions String :=
  ⟨none, none, none, none, false, skip, limit, true, false, none, false⟩

theorem twoTypes_windows :
    (∀ db, RightWindow (windowOptions 0 (some 2)) (matchingRows .stored typeViews db "types"
        (windowOptions 0 (some 2)))
        ((db : EmuDatabase Unit String Nat).queryView .stored .stored typeViews "types"
          (windowOptions 0 (some 2))).1 ↔
      ArrivesInPlace (windowOptions 0 (some 2)) (matchingRows .stored typeViews db "types"
        (windowOptions 0 (some 2)))) ∧
    ∀ rows dbs, (∀ k, matchingRows .stored typeViews (dbs k) "types" (windowOptions 0 (some 2)) =
        rows) →
      ∀ limit count, 0 < limit → rows.length ≤ count * limit →
        (PagesInOrder .stored .stored typeViews "types" (windowOptions 0 (some 2)) rows dbs limit
            count ↔
          ∀ k < count, ArrivesInPlace ((windowOptions 0 (some 2)).page limit k) rows) :=
  queryView_windows_iff .stored .stored typeViews "types" (windowOptions 0 (some 2)) (Or.inl rfl) rfl

/-- The first row asked for is the one that arrives first, and the rows from the second on are
none. -/
theorem window_of_arrivals :
    (twoTypes.queryView .stored .stored typeViews "types" (windowOptions 0 (some 1))).1.toOption.map
      (fun rows => rows.map ViewRow.key) = some [some "b"] ∧
    ¬ RightWindow (windowOptions 0 (some 1)) (matchingRows .stored typeViews twoTypes "types"
        (windowOptions 0 (some 1)))
      (twoTypes.queryView .stored .stored typeViews "types" (windowOptions 0 (some 1))).1 ∧
    (twoTypes.queryView .stored .stored typeViews "types" (windowOptions 1 none)).1.toOption.map
      (fun rows => rows.map ViewRow.key) = some [] ∧
    ¬ RightWindow (windowOptions 1 none) (matchingRows .stored typeViews twoTypes "types"
        (windowOptions 1 none))
      (twoTypes.queryView .stored .stored typeViews "types" (windowOptions 1 none)).1 := by
  refine ⟨by decide +kernel, ?_, by decide +kernel, ?_⟩
  · rw [queryView_window_iff (Or.inl rfl) rfl]
    show ¬ InPlace _ _ _ _
    decide +kernel
  · rw [queryView_window_iff (Or.inl rfl) rfl]
    show ¬ (_ ∨ _)
    decide +kernel

end EmuDatabase
end Feat.Database
