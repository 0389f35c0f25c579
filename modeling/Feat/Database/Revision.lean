import Mathlib.Data.List.TakeDrop
import Mathlib.Data.Prod.Lex
import Mathlib.Data.String.Basic

/- Revision identifiers (`feat.database.conflicts.parse_rev`,
   `feat.database.client._parse_doc_revision`).

   CouchDB writes a revision as its number, a dash and a hash. `Revision` is the
   pair and `Revision.str` the identifier that goes over the wire; `parseRev` reads
   an identifier back. The number is written in decimal without leading zeros, so
   identifiers compare as strings in another order than their numbers do. -/
namespace Feat.Database

/-- A revision: how many revisions led to it, and the hash that tells it from the others. -/
structure Revision where
  index : Nat
  hash : String
  deriving DecidableEq

/-- What a database answers to a write: the document's id and its new revision. -/
structure Response where
  id : String
  rev : Revision
  deriving DecidableEq

/-- The identifier: `"%d-%s"`. -/
def Revision.str (r : Revision) : String := toString r.index ++ "-" ++ r.hash

/-- The `ValueError`s of `parse_rev`. -/
inductive ValueError where
  | notARev (rev : String)
  | notAnInteger (seq : List Char)
  deriving DecidableEq

/-- `int` on a run of decimal digits. -/
def intOf (seq : List Char) : Except ValueError Nat :=
  if seq ≠ [] ∧ seq.all Char.isDigit then .ok (Nat.ofDigitChars 10 seq 0)
  else .error (.notAnInteger seq)

/-- `parse_rev`: the number before the first dash and what follows it. -/
def parseRev (rev : String) : Except ValueError (Nat × String) :=
  match rev.toList.span (· != '-') with
  | (_, []) => .error (.notARev rev)
  | (seq, _ :: tag) => do return (← intOf seq, String.ofList tag)

theorem intOf_toDigits (n : Nat) : intOf (Nat.toDigits 10 n) = .ok n := by
  have hdigit : (Nat.toDigits 10 n).all Char.isDigit = true := by
    rw [List.all_eq_true]
    intro c hc
    exact Nat.isDigit_of_mem_toDigits (by omega) (by omega) hc
  unfold intOf
  rw [if_pos ⟨Nat.toDigits_ne_nil, hdigit⟩, Nat.ofDigitChars_ten_toDigits]

theorem str_toList (r : Revision) :
    r.str.toList = Nat.toDigits 10 r.index ++ '-' :: r.hash.toList := by
  simp [Revision.str, String.toList_append, Nat.toList_repr]

/-- The dash that ends the number is the first one. -/
theorem span_str (r : Revision) :
    r.str.toList.span (· != '-') = (Nat.toDigits 10 r.index, '-' :: r.hash.toList) := by
  have hno : ∀ c ∈ Nat.toDigits 10 r.index, (c != '-') = true := by
    intro c hc
    have hd : c.isDigit = true := Nat.isDigit_of_mem_toDigits (by omega) (by omega) hc
    by_contra hne
    have he : c = '-' := by simpa using hne
    rw [he] at hd
    exact absurd hd (by decide)
  rw [str_toList, List.span_eq_takeWhile_dropWhile, List.takeWhile_append_of_pos hno,
    List.dropWhile_append_of_pos hno]
  simp

/-- Reading an identifier gives back what it was written from. -/
theorem parseRev_str (r : Revision) : parseRev r.str = .ok (r.index, r.hash) := by
  unfold parseRev
  rw [span_str]
  simp [intOf_toDigits, bind, Except.bind, pure, Except.pure]

theorem str_injective : Function.Injective Revision.str := by
  intro r r' h
  have hp := parseRev_str r
  rw [h, parseRev_str] at hp
  cases r; cases r'
  simp at hp
  simp [hp]

-- As strings the tenth revision comes before the ninth.
example : (Revision.mk 10 "a").str < (Revision.mk 9 "a").str := by decide

/-- The order of what `parse_rev` returns: by number, and by hash when the numbers agree. -/
def Revision.before (r r' : Revision) : Prop :=
  toLex (r.index, r.hash) ≤ toLex (r'.index, r'.hash)

instance (r r' : Revision) : Decidable (r.before r') := by
  unfold Revision.before; infer_instance

end Feat.Database
