import Mathlib.Data.Rat.Defs
import Mathlib.Algebra.Order.Ring.Rat
import Feat.Lib.Hash
import Feat.Lib.StableOrder

/- Content negotiation (`feat.web.webserver`, `feat.web.http`).

   A server has mime types with priorities, and a client says in the Accept header which ranges
   of types it takes, with qualities. Both are trees by main type and subtype. Names of types are
   the pairs `mime2tuple` gives, in lower case; `none` is a star. An object has writers for some
   types. Priorities and qualities are rational numbers. -/
namespace Feat.Web.Negotiation

open Hash

/-- A type or subtype in a range. -/
abbrev Token : Type := Option String

abbrev MimeType : Type := String × String

abbrev Tree : Type := Dict Token (Dict Token ℚ)

/-- The mime types of a server. -/
structure MimeTypes where
  table : Dict String (Dict String ℚ)
  valid : ∀ type subtypes, table.lookup type = some subtypes →
    ∀ subtype p, subtypes.lookup subtype = some p → 0 < p ∧ p ≤ 1

namespace MimeTypes

/-- `_mime_types`, to begin with. -/
def initial : MimeTypes where
  table := ∅
  valid _ _ h := by simp at h

/-- `enable_mime_type`. -/
def enable (m : MimeTypes) (t : MimeType) (priority : ℚ) (h : 0 < priority) : MimeTypes where
  table := m.table.insert t.1 (((m.table.lookup t.1).getD ∅).insert t.2 (min 1 priority))
  valid type subtypes hl subtype p hp := by
    have hnew : 0 < min 1 priority ∧ min 1 priority ≤ 1 := ⟨lt_min one_pos h, min_le_left _ _⟩
    by_cases htype : type = t.1
    · subst htype
      rw [AList.lookup_insert] at hl
      cases hl
      by_cases hsub : subtype = t.2
      · subst hsub
        rw [AList.lookup_insert] at hp
        cases hp
        exact hnew
      · rw [AList.lookup_insert_ne hsub] at hp
        cases hold : m.table.lookup t.1 with
        | none => rw [hold] at hp; simp at hp
        | some old => rw [hold] at hp; exact m.valid _ old hold subtype p hp
    · rw [AList.lookup_insert_ne htype] at hl
      exact m.valid type subtypes hl subtype p hp

end MimeTypes

/-- What the Accept header says: types, all subtypes of a type, or all types, with qualities. -/
structure Accept where
  ranges : Dict (Token × Token) ℚ
  formed : ∀ t s, (ranges.lookup (t, s)).isSome → t = none → s = none
  valid : ∀ r q, ranges.lookup r = some q → 0 ≤ q ∧ q ≤ 1

/-- What is parsed when there is no header. -/
def Accept.missing : Accept where
  ranges := ∅
  formed _ _ h := by simp at h
  valid _ _ h := by simp at h

/-! ## Trees -/

/-- `result.setdefault(type, {})[sub] = priority`. -/
def Tree.set (tree : Tree) (range : Token × Token) (priority : ℚ) : Tree :=
  tree.insert range.1 (((tree.lookup range.1).getD ∅).insert range.2 priority)

/-- `build_mime_tree`, for the items of a dictionary. -/
def buildMimeTree (items : List ((Token × Token) × ℚ)) (addStars : Bool) : Tree :=
  let result : Tree := items.foldl (fun result item => result.set item.1 (min 1 item.2)) ∅
  if addStars then
    let result := if none ∈ result then result else result.insert none (AList.singleton none (1 / 100))
    Dict.map (fun sub => if none ∈ sub then sub else sub.insert none (1 / 100)) result
  else result

/-- `does_accept_mime_type`. -/
def doesAcceptMimeType (t : MimeType) (tree : Tree) : Bool :=
  [tree.lookup (some t.1), tree.lookup none].any fun subtree =>
    subtree.any fun sub => some t.2 ∈ sub || none ∈ sub

/-! ## The server -/

/-- The orders in which dictionaries are iterated over. -/
structure Orders where
  ranges : HashOrder (Token × Token)
  types : HashOrder String
  subtypes : HashOrder String
  priorities : HashOrder MimeType
  options : HashOrder String

/-- The keys of a dictionary, those with the highest values first. -/
def best {κ : Type} [DecidableEq κ] (order : HashOrder κ) (priorities : Dict κ ℚ) : List κ :=
  (((Dict.items order priorities).insertionSort fun x y => x.2 ≤ y.2).map Prod.fst).reverse

variable (o : Orders) (types : MimeTypes) (writer : MimeType → Bool) (accepts : Accept)

/-- `acc_pri`: the stars are there. -/
def accPri (tree : Tree) (t : MimeType) : ℚ :=
  let subtypes := (tree.lookup (some t.1)).getD ((tree.lookup none).getD ∅)
  (subtypes.lookup (some t.2)).getD ((subtypes.lookup none).getD 0)

/-- `priorities`, of the types the object has a writer for. -/
def priorities : Dict MimeType ℚ :=
  Dict.ofList ((Dict.items o.types types.table).flatMap fun doc =>
    (Dict.items o.subtypes doc.2).filterMap fun sub =>
      if writer (doc.1, sub.1) then
        some ((doc.1, sub.1),
          sub.2 * accPri (buildMimeTree (Dict.items o.ranges accepts.ranges) true) (doc.1, sub.1))
      else none)

/-- `negotiate_mime_types`. -/
def negotiateMimeTypes : List MimeType := best o.priorities (priorities o types writer accepts)

/-- `negotiate_forced_aspect`. -/
def negotiateForcedAspect (options : List String) (accepted : Dict String ℚ) :
    Option (List String) :=
  let priorities : Dict String ℚ := Dict.ofList (options.zipIdx.filterMap fun option =>
    ((accepted.lookup option.1).or (accepted.lookup "*")).map fun p =>
      (option.1, max p (1 / 1000000) * (1 - (option.2 : ℚ) * (1 / 10) / (options.length : ℚ))))
  if priorities = ∅ then none else some (best o.options priorities)

/-! ## The response -/

/-- What a request says of the answers that are accepted. -/
structure Request where
  accept : Option Accept
  acceptedEncodings : Dict String ℚ
  acceptedLanguages : Dict String ℚ

def Request.acceptedMimeTypes (request : Request) : Accept := request.accept.getD .missing

/-- `_accept_tree`. -/
def Request.acceptTree (request : Request) : Tree :=
  buildMimeTree (Dict.items o.ranges request.acceptedMimeTypes.ranges) false

/-- `INegotiable`. -/
structure Negotiable where
  allowedEncodings : List String
  allowedLanguages : List String

structure Response where
  mimeType : Option MimeType
  encoding : Option String
  language : Option String
  /-- An object is being written, and some were. -/
  writing : Bool
  objects : Nat
  /-- The response is not cached, and is prepared. -/
  headersSent : Bool

inductive Failure where
  | writeError
  | alreadyPrepared
  | notAcceptable
  deriving DecidableEq

/-- `set_mime_type`, `set_encoding` and `set_language`, with strict negotiation. -/
def Response.set (response : Response) (accepted : Bool) : Except Failure Unit :=
  if response.headersSent then .error .alreadyPrepared
  else if accepted then .ok ()
  else .error .notAcceptable

/-- `does_accept_encoding` and `does_accept_language`. -/
def doesAccept (accepted : Dict String ℚ) (option : String) : Bool :=
  option ∈ accepted || "*" ∈ accepted

/-- What is allowed, and what is chosen of it, for an encoding or a language. -/
def forcedAspect (preset : Option String) (allowed : List String) (accepted : Dict String ℚ) :
    List String × Option String :=
  match preset with
  | some option => ([], some option)
  | none => (allowed, (negotiateForcedAspect o allowed accepted).bind List.head?)

/-- The encoding and the language of an object that is `INegotiable`. -/
def negotiateAspects (request : Request) (response : Response) (n : Negotiable) :
    Except Failure Unit :=
  let encoding := forcedAspect o response.encoding n.allowedEncodings request.acceptedEncodings
  let language := forcedAspect o response.language n.allowedLanguages request.acceptedLanguages
  if encoding.1 ≠ [] ∧ encoding.2 = none ∨ language.1 ≠ [] ∧ language.2 = none then
    .error .notAcceptable
  else do
    if encoding.1 ≠ [] then response.set (encoding.2.any (doesAccept request.acceptedEncodings))
    if language.1 ≠ [] then response.set (language.2.any (doesAccept request.acceptedLanguages))

/-- `write_object`, to where the writer of the type that was chosen is called. -/
def writeObject (request : Request) (response : Response) (negotiable : Option Negotiable) :
    Except Failure MimeType :=
  if !response.writing && response.objects ≠ 0 then .error .writeError
  else do
    let mimeType ← match response.mimeType with
      | some t => pure t
      | none => match (negotiateMimeTypes o types writer request.acceptedMimeTypes).head? with
        | none => .error .notAcceptable
        | some t => do
          response.set (doesAcceptMimeType t (request.acceptTree o))
          pure t
    match negotiable with
    | none => pure ()
    | some n => negotiateAspects o request response n
    pure mimeType

end Feat.Web.Negotiation
