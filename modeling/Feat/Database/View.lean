import Mathlib.Data.List.Sort
import Mathlib.Data.Prod.Lex
import Mathlib.Data.String.Basic

/- Views of a CouchDB database. A view emits rows for each document; the rows come
   back sorted by key, and a query asks for a range of keys.

   Keys are arrays (`Key`) of numbers, strings and the empty object, which is
   greater than every number and string and so closes a range. Strings compare
   character by character, and a shorter array that agrees with a longer one comes
   first. -/
namespace Feat.Database

/-- What an array that serves as a key holds. -/
inductive Atom where
  | num : Nat → Atom
  | str : String → Atom
  | object : Atom
  deriving DecidableEq

namespace Atom

/-- The kind of the value, then the value. -/
def code : Atom → ℕ ×ₗ ℕ ×ₗ String
  | num n => toLex (0, toLex (n, ""))
  | str s => toLex (1, toLex (0, s))
  | object => toLex (2, toLex (0, ""))

theorem code_injective : Function.Injective code := by
  intro a b h
  cases a <;> cases b <;> simp [code] at h <;> simp [h]

instance : LinearOrder Atom := LinearOrder.lift' code code_injective

theorem le_def {a b : Atom} : a ≤ b ↔ code a ≤ code b := Iff.rfl

@[simp] theorem num_le_num {m n : Nat} : num m ≤ num n ↔ m ≤ n := by
  simp only [le_def, code, Prod.Lex.toLex_le_toLex]; simp; omega

@[simp] theorem str_le_str {s t : String} : str s ≤ str t ↔ s ≤ t := by
  simp [le_def, code, Prod.Lex.toLex_le_toLex]

@[simp] theorem le_object (a : Atom) : a ≤ object := by
  cases a <;> simp [le_def, code, Prod.Lex.toLex_le_toLex]

end Atom

abbrev Key : Type := List Atom

/-- The order of keys: the first position at which they differ decides. -/
def Key.le : Key → Key → Bool
  | [], _ => true
  | _ :: _, [] => false
  | a :: k, b :: l => if a = b then Key.le k l else decide (a ≤ b)

@[simp] theorem Key.nil_le (k : Key) : Key.le [] k = true := by simp [Key.le]

@[simp] theorem Key.cons_le_nil (a : Atom) (k : Key) : Key.le (a :: k) [] = false := rfl

@[simp] theorem Key.cons_le_cons_self (a : Atom) (k l : Key) :
    Key.le (a :: k) (a :: l) = Key.le k l := by simp [Key.le]

theorem Key.cons_le_cons_ne {a b : Atom} (h : a ≠ b) (k l : Key) :
    Key.le (a :: k) (b :: l) = decide (a ≤ b) := by simp [Key.le, h]

theorem Key.single_le_single (a b : Atom) : Key.le [a] [b] = decide (a ≤ b) := by
  by_cases h : a = b <;> simp [Key.le, h]

theorem Key.le_total (k l : Key) : Key.le k l = true ∨ Key.le l k = true := by
  induction k generalizing l with
  | nil => simp
  | cons a k ih =>
    cases l with
    | nil => simp
    | cons b l =>
      by_cases h : a = b
      · subst h; simpa using ih l
      · simpa [cons_le_cons_ne h, cons_le_cons_ne (Ne.symm h)] using LinearOrder.le_total a b

theorem Key.le_trans {k l m : Key} (h₁ : Key.le k l = true) (h₂ : Key.le l m = true) :
    Key.le k m = true := by
  induction k generalizing l m with
  | nil => simp
  | cons a k ih =>
    match l, m with
    | [], _ => simp at h₁
    | _ :: _, [] => simp at h₂
    | b :: l, c :: m =>
      by_cases hab : a = b
      · subst hab
        by_cases hac : a = c
        · subst hac
          rw [cons_le_cons_self] at h₁ h₂ ⊢
          exact ih h₁ h₂
        · rw [cons_le_cons_ne hac] at h₂ ⊢
          exact h₂
      · rw [cons_le_cons_ne hab] at h₁
        have hab' : a ≤ b := of_decide_eq_true h₁
        by_cases hbc : b = c
        · subst hbc
          rw [cons_le_cons_ne hab]
          exact h₁
        · rw [cons_le_cons_ne hbc] at h₂
          have hbc' : b ≤ c := of_decide_eq_true h₂
          have hac : a ≠ c := by
            intro he
            subst he
            exact hab (le_antisymm hab' hbc')
          rw [cons_le_cons_ne hac]
          exact decide_eq_true (hab'.trans hbc')

theorem Key.le_antisymm {k l : Key} (h₁ : Key.le k l = true) (h₂ : Key.le l k = true) : k = l := by
  induction k generalizing l with
  | nil =>
    cases l with
    | nil => rfl
    | cons b l => simp at h₂
  | cons a k ih =>
    cases l with
    | nil => simp at h₁
    | cons b l =>
      by_cases hab : a = b
      · subst hab
        rw [cons_le_cons_self] at h₁ h₂
        rw [ih h₁ h₂]
      · rw [cons_le_cons_ne hab] at h₁
        rw [cons_le_cons_ne (Ne.symm hab)] at h₂
        exact absurd ((of_decide_eq_true h₁).antisymm (of_decide_eq_true h₂)) hab

/-- A row: the key and the value a view emitted, and the document it did so for. -/
structure Row (Value Doc : Type) where
  key : Key
  value : Value
  doc : Doc
  deriving DecidableEq

section View
variable {Value Doc : Type}

/-- The order of rows. -/
def Row.le (r r' : Row Value Doc) : Prop := Key.le r.key r'.key = true

instance (r r' : Row Value Doc) : Decidable (r.le r') := by unfold Row.le; infer_instance

instance : Std.Total (@Row.le Value Doc) := ⟨fun r r' => Key.le_total r.key r'.key⟩

instance : IsTrans (Row Value Doc) Row.le := ⟨fun _ _ _ => Key.le_trans⟩

/-- The rows of a view, where `map` is the view's map function. -/
def rowsOf (map : Doc → List (Key × Value)) (docs : List Doc) : List (Row Value Doc) :=
  docs.flatMap (fun doc => (map doc).map (fun e => ⟨e.1, e.2, doc⟩))

/-- A range of keys, both ends included. -/
structure Range where
  startkey : Key
  endkey : Key

/-- The range of one key. -/
def Range.only (key : Key) : Range := ⟨key, key⟩

def Range.contains (range : Range) (key : Key) : Bool :=
  Key.le range.startkey key && Key.le key range.endkey

theorem Range.only_contains {key k : Key} : (Range.only key).contains k = true ↔ k = key := by
  rw [Range.contains, Bool.and_eq_true]
  constructor
  · intro h
    exact Key.le_antisymm h.2 h.1
  · intro h
    subst h
    exact ⟨or_self_iff.mp (Key.le_total _ _), or_self_iff.mp (Key.le_total _ _)⟩

/-- `query_view`: the rows in the range, by key. -/
def queryView (map : Doc → List (Key × Value)) (docs : List Doc) (range : Range) :
    List (Row Value Doc) :=
  ((rowsOf map docs).filter (fun row => range.contains row.key)).insertionSort Row.le

theorem mem_rowsOf {map : Doc → List (Key × Value)} {docs : List Doc} {row : Row Value Doc} :
    row ∈ rowsOf map docs ↔ row.doc ∈ docs ∧ (row.key, row.value) ∈ map row.doc := by
  simp only [rowsOf, List.mem_flatMap, List.mem_map, Prod.exists]
  constructor
  · rintro ⟨doc, hdoc, key, value, hmap, rfl⟩
    exact ⟨hdoc, hmap⟩
  · rintro ⟨hdoc, hmap⟩
    exact ⟨row.doc, hdoc, row.key, row.value, hmap, rfl⟩

theorem mem_queryView {map : Doc → List (Key × Value)} {docs : List Doc} {range : Range}
    {row : Row Value Doc} :
    row ∈ queryView map docs range ↔
      row.doc ∈ docs ∧ (row.key, row.value) ∈ map row.doc ∧ range.contains row.key = true := by
  rw [queryView, (List.perm_insertionSort _ _).mem_iff, List.mem_filter, mem_rowsOf, and_assoc]

theorem queryView_sorted (map : Doc → List (Key × Value)) (docs : List Doc) (range : Range) :
    (queryView map docs range).Pairwise Row.le :=
  List.pairwise_insertionSort _ _

end View
end Feat.Database
