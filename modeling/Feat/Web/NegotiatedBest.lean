import Mathlib.Tactic.Linarith
import Feat.Web.Negotiation

/- The type that is chosen for an object (`feat.web.webserver`, `feat.web.http`).

   A client wants a type with the quality of the most specific range it falls into, or as much as
   any other when there is no Accept header. The server rates a type otherwise: with `addStars`
   a range for all subtypes is added to each main type of the header that has none, with a quality
   of 0.01, and one for all types, so that a quality for all types does not count for a main type
   that is named, and a type that is not accepted is rated above one with a very small quality.
   Without a header the tree of what is accepted is empty, and no type is accepted. -/
namespace Feat.Web.Negotiation

open Hash

/-! ## What a client wants -/

/-- The quality of the most specific range. -/
def Accept.quality (a : Accept) (t : MimeType) : ℚ :=
  ((a.ranges.lookup (some t.1, some t.2)).or
    ((a.ranges.lookup (some t.1, none)).or (a.ranges.lookup (none, none)))).getD 0

def Request.quality (request : Request) (t : MimeType) : ℚ :=
  match request.accept with
  | some accept => accept.quality t
  | none => 1

/-- How the server takes the quality: the main type alone counts if a range names it. -/
def Accept.guess (a : Accept) (t : MimeType) : ℚ :=
  if a.ranges.keys.any (·.1 = some t.1) then
    ((a.ranges.lookup (some t.1, some t.2)).or (a.ranges.lookup (some t.1, none))).getD (1 / 100)
  else (a.ranges.lookup (none, none)).getD (1 / 100)

def MimeTypes.priority (types : MimeTypes) (t : MimeType) : Option ℚ :=
  (types.table.lookup t.1).bind (·.lookup t.2)

/-! ## Trees -/

namespace Tree

def get (tree : Tree) (range : Token × Token) : Option ℚ :=
  (tree.lookup range.1).bind (·.lookup range.2)

theorem get_set (tree : Tree) (range range' : Token × Token) (p : ℚ) :
    (tree.set range p).get range' = if range = range' then some p else tree.get range' := by
  obtain ⟨t, s⟩ := range
  obtain ⟨t', s'⟩ := range'
  by_cases ht : t = t'
  · subst ht
    by_cases hs : s = s'
    · subst hs
      simp [get, set]
    · have hne : s' ≠ s := Ne.symm hs
      rw [get, set, AList.lookup_insert, Option.bind_some, AList.lookup_insert_ne hne, if_neg (by simp [hs])]
      cases htree : tree.lookup t <;> simp [get, htree]
  · have hne : t' ≠ t := Ne.symm ht
    rw [get, set, AList.lookup_insert_ne hne, if_neg (by simp [ht])]
    rfl

theorem mem_set {tree : Tree} {range : Token × Token} {p : ℚ} {t : Token} :
    t ∈ tree.set range p ↔ t = range.1 ∨ t ∈ tree := by
  simp [set]

theorem get_foldl (items : List ((Token × Token) × ℚ)) (tree : Tree) (range : Token × Token) :
    (items.foldl (fun result item => result.set item.1 (min 1 item.2)) tree).get range =
      (((Dict.ofList items).lookup range).map (min 1)).or (tree.get range) := by
  rw [Dict.lookup_ofList]
  induction items generalizing tree with
  | nil => simp
  | cons item items ih =>
    rw [List.foldl_cons, ih, get_set, List.reverse_cons, List.find?_append]
    cases items.reverse.find? (fun p => p.1 = range) with
    | some q => simp
    | none =>
      by_cases hrange : item.1 = range
      · simp [hrange]
      · simp [hrange]

theorem mem_foldl {items : List ((Token × Token) × ℚ)} {tree : Tree} {t : Token} :
    t ∈ items.foldl (fun result item => result.set item.1 (min 1 item.2)) tree ↔
      (∃ item ∈ items, item.1.1 = t) ∨ t ∈ tree := by
  induction items generalizing tree with
  | nil => simp
  | cons item items ih =>
    rw [List.foldl_cons, ih, mem_set, List.exists_mem_cons_iff, ← or_assoc, @eq_comm _ t]
    exact or_congr_left or_comm

end Tree

section
variable {o : HashOrder (Token × Token)} {a : Accept}

/-- The tree of the ranges. -/
theorem get_buildMimeTree (range : Token × Token) :
    (buildMimeTree (Dict.items o a.ranges) false).get range = a.ranges.lookup range := by
  have hempty : (∅ : Tree).get range = none := rfl
  change Tree.get (List.foldl _ ∅ _) range = _
  rw [Tree.get_foldl, Dict.lookup_ofList_items, hempty, Option.or_none]
  cases hq : a.ranges.lookup range with
  | none => rfl
  | some q => rw [Option.map_some, min_eq_right (a.valid range q hq).2]

theorem mem_buildMimeTree {t : Token} :
    t ∈ buildMimeTree (Dict.items o a.ranges) false ↔ ∃ s, (a.ranges.lookup (t, s)).isSome := by
  change t ∈ List.foldl _ ∅ _ ↔ _
  rw [Tree.mem_foldl]
  constructor
  · rintro (⟨⟨⟨t', s⟩, q⟩, hitem, rfl⟩ | h)
    · exact ⟨s, by rw [Dict.mem_items.mp hitem]; rfl⟩
    · exact absurd h (AList.notMem_empty _)
  · rintro ⟨s, h⟩
    obtain ⟨q, hq⟩ := Option.isSome_iff_exists.mp h
    exact .inl ⟨((t, s), q), Dict.mem_items.mpr hq, rfl⟩

theorem any_lookup (tree : Tree) (t : Token) (s : String) :
    ((tree.lookup t).any fun sub => some s ∈ sub || none ∈ sub) ↔
      (tree.get (t, some s)).isSome ∨ (tree.get (t, none)).isSome := by
  cases htree : tree.lookup t <;> simp [Tree.get, htree, AList.lookup_isSome]

/-- What is accepted is what falls into a range. -/
theorem doesAcceptMimeType_iff {t : MimeType} :
    doesAcceptMimeType t (buildMimeTree (Dict.items o a.ranges) false) ↔
      (a.ranges.lookup (some t.1, some t.2)).isSome ∨ (a.ranges.lookup (some t.1, none)).isSome ∨
        (a.ranges.lookup (none, none)).isSome := by
  have hstar : (a.ranges.lookup (none, some t.2)).isSome = false := by
    by_contra h
    exact nomatch a.formed none (some t.2) (Bool.not_eq_false _ ▸ h) rfl
  rw [doesAcceptMimeType, List.any_cons, List.any_cons, List.any_nil, Bool.or_false, Bool.or_eq_true,
    any_lookup, any_lookup]
  simp only [get_buildMimeTree, hstar, Bool.false_eq_true, false_or, or_assoc]

/-- A subtree to which a star is added where it has none. -/
def withStar (sub : Dict Token ℚ) : Dict Token ℚ :=
  if none ∈ sub then sub else sub.insert none (1 / 100)

theorem lookup_withStar_some (sub : Dict Token ℚ) (s : String) :
    (withStar sub).lookup (some s) = sub.lookup (some s) := by
  rw [withStar]
  split
  · rfl
  · rw [AList.lookup_insert_ne (by simp)]

theorem lookup_withStar_none (sub : Dict Token ℚ) :
    (withStar sub).lookup none = some ((sub.lookup none).getD (1 / 100)) := by
  rw [withStar]
  split
  · next h =>
    obtain ⟨q, hq⟩ := Option.isSome_iff_exists.mp (AList.lookup_isSome.mpr h)
    rw [hq]
    rfl
  · next h => rw [AList.lookup_insert, AList.lookup_eq_none.mpr h]; rfl

/-- The subtree for all types, once stars were added. -/
theorem lookup_star {tree full : Tree} (hget : ∀ range, tree.get range = a.ranges.lookup range)
    (hfull : full = if none ∈ tree then tree else tree.insert none (AList.singleton none (1 / 100))) :
    ∃ star, full.lookup none = some star ∧ (∀ s, star.lookup (some s) = none) ∧
      (star.lookup none).getD (1 / 100) = (a.ranges.lookup (none, none)).getD (1 / 100) := by
  by_cases hnone : none ∈ tree
  · obtain ⟨star, hstar⟩ := Option.isSome_iff_exists.mp (AList.lookup_isSome.mpr hnone)
    have hsub : ∀ s, star.lookup s = a.ranges.lookup (none, s) := fun s => by
      rw [← hget, Tree.get, hstar, Option.bind_some]
    refine ⟨star, by rw [hfull, if_pos hnone, hstar], fun s => ?_, by rw [hsub]⟩
    by_contra h
    rw [hsub] at h
    exact nomatch a.formed none (some s) (Option.isSome_iff_ne_none.mpr h) rfl
  · refine ⟨AList.singleton none (1 / 100), ?_, fun s => ?_, ?_⟩
    · rw [hfull, if_neg hnone, AList.lookup_insert]
    · rw [AList.lookup_eq_none, AList.mem_keys, AList.keys_singleton]
      simp
    · rw [← hget, Tree.get, AList.lookup_eq_none.mpr hnone]
      rfl

/-- The tree with stars. -/
theorem accPri_eq (t : MimeType) :
    accPri (buildMimeTree (Dict.items o a.ranges) true) t = a.guess t := by
  have hget := get_buildMimeTree (o := o) (a := a)
  have hmem := fun t => mem_buildMimeTree (o := o) (a := a) (t := t)
  have htrue : buildMimeTree (Dict.items o a.ranges) true = Dict.map withStar
      (if none ∈ buildMimeTree (Dict.items o a.ranges) false then
        buildMimeTree (Dict.items o a.ranges) false
      else (buildMimeTree (Dict.items o a.ranges) false).insert none
        (AList.singleton none (1 / 100))) := rfl
  rw [htrue]
  generalize buildMimeTree (Dict.items o a.ranges) false = tree at hget hmem
  obtain ⟨star, hnone, hsome, hstar⟩ := lookup_star hget rfl
  have hmain : (if none ∈ tree then tree else
      tree.insert none (AList.singleton none (1 / 100))).lookup (some t.1) =
        tree.lookup (some t.1) := by
    split
    · rfl
    · rw [AList.lookup_insert_ne (by simp)]
  rw [accPri, Accept.guess, Dict.lookup_map, Dict.lookup_map, hmain, hnone]
  have hkeys : (a.ranges.keys.any (·.1 = some t.1)) = true ↔ some t.1 ∈ tree := by
    rw [hmem, List.any_eq_true]
    constructor
    · rintro ⟨⟨t', s⟩, hk, ht⟩
      cases of_decide_eq_true ht
      exact ⟨s, AList.lookup_isSome.mpr (AList.mem_keys.mpr hk)⟩
    · rintro ⟨s, hs⟩
      exact ⟨(some t.1, s), AList.mem_keys.mp (AList.lookup_isSome.mp hs), by simp⟩
  cases htree : tree.lookup (some t.1) with
  | some sub =>
    have hsub : ∀ s, sub.lookup s = a.ranges.lookup (some t.1, s) := fun s => by
      rw [← hget, Tree.get, htree, Option.bind_some]
    rw [if_pos (hkeys.mpr (AList.lookup_isSome.mp (by rw [htree]; rfl)))]
    simp only [Option.map_some, Option.getD_some, lookup_withStar_some, lookup_withStar_none, hsub]
    cases a.ranges.lookup (some t.1, some t.2) <;> rfl
  | none =>
    rw [if_neg fun h => AList.lookup_eq_none.mp htree (hkeys.mp h)]
    simp only [Option.map_some, Option.map_none, Option.getD_some, Option.getD_none,
      lookup_withStar_some, lookup_withStar_none, hsome, hstar]

end

/-! ## The first of the best -/

section
variable {κ : Type} [DecidableEq κ] {d : Dict κ ℚ} {k : κ} {v : ℚ}

theorem head_best (order : HashOrder κ) : (best order d).head? =
    (((Dict.items order d).insertionSort fun x y => x.2 ≤ y.2).getLast?).map Prod.fst := by
  rw [best, List.head?_reverse, List.getLast?_map]

/-- What comes first has a value, and none has a higher one. -/
theorem le_of_head_best {order : HashOrder κ} (h : (best order d).head? = some k) :
    ∃ v, d.lookup k = some v ∧ ∀ k' v', d.lookup k' = some v' → v' ≤ v := by
  rw [head_best] at h
  obtain ⟨⟨k, v⟩, hlast, rfl⟩ := Option.map_eq_some_iff.mp h
  have hperm := List.perm_insertionSort (fun x y : κ × ℚ => x.2 ≤ y.2) (Dict.items order d)
  have hpairwise : ((Dict.items order d).insertionSort fun x y => x.2 ≤ y.2).Pairwise
      fun x y => x.2 ≤ y.2 := by
    have : Std.Total (fun x y : κ × ℚ => x.2 ≤ y.2) := ⟨fun x y => le_total _ _⟩
    have : IsTrans (κ × ℚ) (fun x y => x.2 ≤ y.2) := ⟨fun _ _ _ => le_trans⟩
    exact List.pairwise_insertionSort _ _
  obtain ⟨sorted, hsorted⟩ := List.getLast?_eq_some_iff.mp hlast
  rw [hsorted] at hperm hpairwise
  refine ⟨v, Dict.mem_items.mp (hperm.mem_iff.mp (by simp)), fun k' v' hk' => ?_⟩
  have hmem := hperm.mem_iff.mpr (Dict.mem_items (o := order).mpr hk')
  rcases List.mem_append.mp hmem with hmem | hmem
  · exact (List.pairwise_append.mp hpairwise).2.2 _ hmem _ (List.mem_singleton.mpr rfl)
  · cases List.mem_singleton.mp hmem
    exact le_rfl

theorem isSome_head_best {order : HashOrder κ} (h : d.lookup k = some v) :
    ((best order d).head?).isSome := by
  have hmem : k ∈ best order d := by
    rw [best, List.mem_reverse, List.mem_map]
    exact ⟨(k, v), (List.perm_insertionSort _ _).mem_iff.mpr (Dict.mem_items.mpr h), rfl⟩
  cases hbest : best order d with
  | nil => rw [hbest] at hmem; cases hmem
  | cons k' ks => rfl

/-- Any of the best may come first. -/
theorem exists_head_best (h : d.lookup k = some v) (hmax : ∀ k' v', d.lookup k' = some v' → v' ≤ v) :
    ∃ order, (best order d).head? = some k := by
  obtain ⟨ps, hps⟩ := Dict.items_last h
  refine ⟨.last k, ?_⟩
  rw [head_best, hps, StableOrder.getLast?_insertionSort, Option.map_some]
  intro p hp
  exact hmax p.1 p.2 (Dict.mem_items.mp (by rw [hps]; exact List.mem_append_left _ hp))

end

/-- The priorities of the types the object has a writer for. -/
theorem lookup_priorities {o : Orders} {types : MimeTypes} {writer : MimeType → Bool} {a : Accept}
    {t : MimeType} {v : ℚ} : (priorities o types writer a).lookup t = some v ↔
      ∃ p, types.priority t = some p ∧ writer t ∧ v = p * a.guess t := by
  have hmem : ∀ t v, (t, v) ∈ ((Dict.items o.types types.table).flatMap fun doc =>
      (Dict.items o.subtypes doc.2).filterMap fun sub =>
        if writer (doc.1, sub.1) then some ((doc.1, sub.1),
          sub.2 * accPri (buildMimeTree (Dict.items o.ranges a.ranges) true) (doc.1, sub.1))
        else none) ↔ ∃ p, types.priority t = some p ∧ writer t ∧ v = p * a.guess t := by
    rintro ⟨type, sub⟩ v
    simp only [List.mem_flatMap, List.mem_filterMap, accPri_eq, Prod.exists, Dict.mem_items,
      MimeTypes.priority, Option.bind_eq_some_iff]
    constructor
    · rintro ⟨type', subtypes, htype, sub', p, hsub, h⟩
      split at h
      · next hwriter =>
        cases h
        exact ⟨p, ⟨subtypes, htype, hsub⟩, hwriter, rfl⟩
      · cases h
    · rintro ⟨p, ⟨subtypes, htype, hsub⟩, hwriter, rfl⟩
      exact ⟨type, subtypes, htype, sub, p, hsub, by rw [if_pos hwriter]⟩
  rw [priorities, ← hmem]
  constructor
  · exact Dict.mem_of_lookup_ofList
  · intro h
    obtain ⟨w, hw⟩ := Dict.lookup_ofList_of_mem h
    obtain ⟨p, hp, _, rfl⟩ := (hmem t w).mp (Dict.mem_of_lookup_ofList hw)
    obtain ⟨p', hp', _, rfl⟩ := (hmem t v).mp h
    rw [hw]
    cases hp.symm.trans hp'
    rfl

/-! ## Encodings and languages -/

section
variable {o : Orders} {options : List String} {accepted : Dict String ℚ} {option : String}

/-- The pairs that make up the priorities of what is allowed. -/
def aspectPriorities (options : List String) (accepted : Dict String ℚ) : List (String × ℚ) :=
  options.zipIdx.filterMap fun option =>
    ((accepted.lookup option.1).or (accepted.lookup "*")).map fun p =>
      (option.1, max p (1 / 1000000) * (1 - (option.2 : ℚ) * (1 / 10) / (options.length : ℚ)))

theorem doesAccept_iff :
    doesAccept accepted option ↔ ((accepted.lookup option).or (accepted.lookup "*")).isSome := by
  simp [doesAccept, AList.lookup_isSome]

theorem mem_keys_aspectPriorities :
    (∃ v, (option, v) ∈ aspectPriorities options accepted) ↔
      option ∈ options ∧ doesAccept accepted option := by
  rw [doesAccept_iff, aspectPriorities]
  constructor
  · rintro ⟨v, hv⟩
    obtain ⟨⟨option', i⟩, hmem, h⟩ := List.mem_filterMap.mp hv
    obtain ⟨p, hp, heq⟩ := Option.map_eq_some_iff.mp h
    cases heq
    exact ⟨List.fst_mem_of_mem_zipIdx hmem, by rw [hp]; rfl⟩
  · rintro ⟨hmem, haccept⟩
    obtain ⟨p, hp⟩ := Option.isSome_iff_exists.mp haccept
    obtain ⟨i, hi⟩ := List.getElem?_of_mem hmem
    exact ⟨_, List.mem_filterMap.mpr
      ⟨(option, i), List.mem_zipIdx_iff_getElem?.mpr hi, by rw [hp]; rfl⟩⟩

/-- What is chosen is allowed, and accepted. -/
theorem accepted_of_negotiateForcedAspect
    (h : (negotiateForcedAspect o options accepted).bind List.head? = some option) :
    option ∈ options ∧ doesAccept accepted option := by
  rw [negotiateForcedAspect] at h
  split at h
  · cases h
  · obtain ⟨v, hv, _⟩ := le_of_head_best h
    exact mem_keys_aspectPriorities.mp ⟨v, Dict.mem_of_lookup_ofList hv⟩

/-- Something is chosen of what is allowed, if anything is accepted. -/
theorem isSome_negotiateForcedAspect :
    ((negotiateForcedAspect o options accepted).bind List.head?).isSome ↔
      ∃ option ∈ options, doesAccept accepted option := by
  constructor
  · intro h
    obtain ⟨option, hoption⟩ := Option.isSome_iff_exists.mp h
    exact ⟨option, accepted_of_negotiateForcedAspect hoption⟩
  · rintro ⟨option, hmem, haccept⟩
    obtain ⟨v, hv⟩ := mem_keys_aspectPriorities.mpr ⟨hmem, haccept⟩
    obtain ⟨w, hw⟩ := Dict.lookup_ofList_of_mem hv
    have hne : Dict.ofList (aspectPriorities options accepted) ≠ ∅ := by
      intro hempty
      rw [hempty, AList.lookup_empty] at hw
      cases hw
    rw [negotiateForcedAspect]
    change ((if Dict.ofList (aspectPriorities options accepted) = ∅ then none
      else some _).bind List.head?).isSome
    rw [if_neg hne]
    exact isSome_head_best hw

end

/-- Whether an encoding or language can be chosen, where that is needed. -/
def AspectAccepted (preset : Option String) (allowed : List String) (accepted : Dict String ℚ) :
    Prop :=
  preset = none → allowed ≠ [] → ∃ option ∈ allowed, doesAccept accepted option

/-- The encodings and languages an object allows are no reason to refuse. -/
def AspectsAccepted (request : Request) (response : Response) : Option Negotiable → Prop
  | none => True
  | some n => AspectAccepted response.encoding n.allowedEncodings request.acceptedEncodings ∧
      AspectAccepted response.language n.allowedLanguages request.acceptedLanguages

/-- One aspect: refused, or left alone, or chosen and accepted. -/
theorem forcedAspect_cases (o : Orders) (preset : Option String) (allowed : List String)
    (accepted : Dict String ℚ) :
    ((forcedAspect o preset allowed accepted).1 ≠ [] ∧
        (forcedAspect o preset allowed accepted).2 = none ∧
        ¬ AspectAccepted preset allowed accepted) ∨
      AspectAccepted preset allowed accepted ∧
        ((forcedAspect o preset allowed accepted).1 ≠ [] →
          (forcedAspect o preset allowed accepted).2.any (doesAccept accepted)) := by
  cases preset with
  | some option =>
    exact .inr ⟨fun h => (nomatch h), fun h => absurd rfl h⟩
  | none =>
    rw [forcedAspect]
    cases hchosen : (negotiateForcedAspect o allowed accepted).bind List.head? with
    | some option =>
      have haccepted := accepted_of_negotiateForcedAspect hchosen
      exact .inr ⟨fun _ _ => ⟨option, haccepted⟩, fun _ => haccepted.2⟩
    | none =>
      have hnone : ¬ ∃ option ∈ allowed, doesAccept accepted option := by
        rw [← isSome_negotiateForcedAspect (o := o), hchosen]
        simp
      by_cases hallowed : allowed = []
      · exact .inr ⟨fun _ h => absurd hallowed h, fun h => absurd hallowed h⟩
      · exact .inl ⟨hallowed, rfl, fun h => hnone (h rfl hallowed)⟩

theorem negotiateAspects_cases (o : Orders) (request : Request) {response : Response}
    (n : Negotiable) (hsent : response.headersSent = false) :
    (negotiateAspects o request response n = .ok () ∧
      AspectsAccepted request response (some n)) ∨
    negotiateAspects o request response n = .error .notAcceptable ∧
      ¬ AspectsAccepted request response (some n) := by
  have hset : ∀ accepted, response.set accepted = if accepted then .ok () else .error .notAcceptable := by
    intro accepted
    rw [Response.set, hsent, if_neg (by simp)]
  rw [negotiateAspects]
  dsimp only
  rcases forcedAspect_cases o response.encoding n.allowedEncodings request.acceptedEncodings with
    ⟨hallowed, hnone, hnot⟩ | ⟨hencoding, hchosen⟩
  · exact .inr ⟨if_pos (.inl ⟨hallowed, hnone⟩), fun h => hnot h.1⟩
  · rcases forcedAspect_cases o response.language n.allowedLanguages request.acceptedLanguages with
      ⟨hallowed, hnone, hnot⟩ | ⟨hlanguage, hchosen'⟩
    · exact .inr ⟨if_pos (.inr ⟨hallowed, hnone⟩), fun h => hnot h.2⟩
    · refine .inl ⟨?_, hencoding, hlanguage⟩
      generalize forcedAspect o response.encoding n.allowedEncodings request.acceptedEncodings = e
        at hchosen ⊢
      generalize forcedAspect o response.language n.allowedLanguages request.acceptedLanguages = l
        at hchosen' ⊢
      obtain ⟨eallowed, echosen⟩ := e
      obtain ⟨lallowed, lchosen⟩ := l
      have hne : ¬ (eallowed ≠ [] ∧ echosen = none ∨ lallowed ≠ [] ∧ lchosen = none) := by
        rintro (⟨h, rfl⟩ | ⟨h, rfl⟩)
        · exact absurd (hchosen h) (by simp)
        · exact absurd (hchosen' h) (by simp)
      rw [if_neg hne]
      simp only [hset]
      by_cases he : eallowed = [] <;> by_cases hl : lallowed = []
      · simp [he, hl, pure, Except.pure]
      · simp [he, hl, hchosen' hl]
      · simp [he, hl, hchosen he, pure, Except.pure, bind, Except.bind]
      · simp [he, hl, hchosen he, hchosen' hl, bind, Except.bind]

/-! ## The choice -/

/-- There is a type that is enabled, that the object has a writer for and that the client takes. -/
def Writable (types : MimeTypes) (writer : MimeType → Bool) (request : Request) : Prop :=
  ∃ t p, types.priority t = some p ∧ writer t ∧ 0 < request.quality t

/-- This type is as good as any other. -/
def Best (types : MimeTypes) (writer : MimeType → Bool) (quality : MimeType → ℚ) (t : MimeType) :
    Prop :=
  ∃ p, types.priority t = some p ∧ writer t ∧
    ∀ t' p', types.priority t' = some p' → writer t' → p' * quality t' ≤ p * quality t

/-- What negotiation is for, in any order of the dictionaries. -/
def Negotiates (types : MimeTypes) (writer : MimeType → Bool) (request : Request)
    (response : Response) (negotiable : Option Negotiable) : Prop :=
  response.mimeType = none → Writable types writer request → ∀ o,
    writeObject o types writer request response negotiable ≠ .error .notAcceptable ∧
    ∀ t, writeObject o types writer request response negotiable = .ok t →
      Best types writer request.quality t

/-- The response can be written to. -/
def Response.Open (response : Response) : Prop :=
  (response.writing ∨ response.objects = 0) ∧ response.headersSent = false

section
variable {types : MimeTypes} {writer : MimeType → Bool} {request : Request} {response : Response}
  {negotiable : Option Negotiable} {a : Accept}

/-- What the server chooses is what it rates best. -/
theorem best_of_head {o : Orders} {t : MimeType}
    (h : (negotiateMimeTypes o types writer a).head? = some t) : Best types writer a.guess t := by
  obtain ⟨v, hv, hmax⟩ := le_of_head_best h
  obtain ⟨p, hp, hwriter, rfl⟩ := lookup_priorities.mp hv
  exact ⟨p, hp, hwriter, fun t' p' hp' hwriter' =>
    hmax t' _ (lookup_priorities.mpr ⟨p', hp', hwriter', rfl⟩)⟩

/-- Any type it rates best may be chosen. -/
theorem exists_head_of_best {t : MimeType} (h : Best types writer a.guess t) :
    ∃ o, (negotiateMimeTypes o types writer a).head? = some t := by
  obtain ⟨p, hp, hwriter, hmax⟩ := h
  have hlookup : (priorities ⟨.stored, .stored, .stored, .stored, .stored⟩ types writer a).lookup t =
      some (p * a.guess t) := lookup_priorities.mpr ⟨p, hp, hwriter, rfl⟩
  obtain ⟨order, horder⟩ := exists_head_best hlookup fun t' v hv => by
    obtain ⟨p', hp', hwriter', rfl⟩ := lookup_priorities.mp hv
    exact hmax t' p' hp' hwriter'
  exact ⟨⟨.stored, .stored, .stored, order, .stored⟩, horder⟩

/-- Something is chosen where there is a type that can be written. -/
theorem exists_head (h : Writable types writer request) (o : Orders) (a : Accept) :
    ∃ t, (negotiateMimeTypes o types writer a).head? = some t := by
  obtain ⟨t, p, hp, hwriter, _⟩ := h
  exact Option.isSome_iff_exists.mp
    (isSome_head_best (lookup_priorities.mpr ⟨p, hp, hwriter, rfl⟩))

/-- A type with a quality falls into a range. -/
theorem doesAccept_of_quality {o : HashOrder (Token × Token)} {t : MimeType}
    (h : 0 < a.quality t) : doesAcceptMimeType t (buildMimeTree (Dict.items o a.ranges) false) := by
  rw [doesAcceptMimeType_iff]
  by_contra hnone
  simp only [not_or, Bool.not_eq_true, Option.isSome_eq_false_iff, Option.isNone_iff_eq_none] at hnone
  rw [Accept.quality, hnone.1, hnone.2.1, hnone.2.2] at h
  exact absurd h (lt_irrefl 0)

/-- The best type is accepted, where one that can be written is. -/
theorem quality_pos_of_best {t : MimeType} (hwritable : Writable types writer request)
    (h : Best types writer request.quality t) : 0 < request.quality t := by
  obtain ⟨t', p', hp', hwriter', hq'⟩ := hwritable
  obtain ⟨p, hp, _, hmax⟩ := h
  have hpos : ∀ {t p}, types.priority t = some p → 0 < p := by
    intro t p hp
    obtain ⟨subtypes, hsub, hp⟩ := Option.bind_eq_some_iff.mp hp
    exact (types.valid _ _ hsub _ _ hp).1
  have hless := hmax t' p' hp' hwriter'
  exact (mul_pos_iff_of_pos_left (hpos hp)).mp (lt_of_lt_of_le (mul_pos (hpos hp') hq') hless)

/-- What becomes of the type that is chosen. -/
theorem writeObject_eq {o : Orders} {t : MimeType} (hmime : response.mimeType = none)
    (hopen : response.Open)
    (hhead : (negotiateMimeTypes o types writer request.acceptedMimeTypes).head? = some t) :
    writeObject o types writer request response negotiable =
      if doesAcceptMimeType t (request.acceptTree o) then
        match negotiable with
        | none => .ok t
        | some n => (negotiateAspects o request response n).map fun _ => t
      else .error .notAcceptable := by
  obtain ⟨hfree, hsent⟩ := hopen
  have hguard : (!response.writing && decide (response.objects ≠ 0)) = false := by
    rcases hfree with h | h <;> simp [h]
  simp only [writeObject, hguard, hmime, hhead, Response.set, hsent]
  by_cases haccept : doesAcceptMimeType t (request.acceptTree o)
  · cases negotiable with
    | none => simp [haccept, bind, Except.bind, pure, Except.pure]
    | some n =>
      cases hn : negotiateAspects o request response n <;>
        simp [haccept, hn, bind, Except.bind, pure, Except.pure, Except.map]
  · simp [haccept, bind, Except.bind]

/-- A response that cannot be written to raises something else. -/
theorem writeObject_of_not_open {o : Orders} {t : MimeType} (hmime : response.mimeType = none)
    (hopen : ¬ response.Open)
    (hhead : (negotiateMimeTypes o types writer request.acceptedMimeTypes).head? = some t) :
    writeObject o types writer request response negotiable = .error .writeError ∨
      writeObject o types writer request response negotiable = .error .alreadyPrepared := by
  rw [writeObject]
  by_cases hguard : (!response.writing && decide (response.objects ≠ 0)) = true
  · exact .inl (if_pos hguard)
  · have hsent : response.headersSent = true := by
      by_contra hsent
      refine hopen ⟨?_, by simpa using hsent⟩
      by_contra hfree
      simp only [not_or, Bool.not_eq_true] at hfree
      exact hguard (by simp [hfree.1, hfree.2])
    rw [if_neg hguard]
    simp only [hmime, hhead, Response.set, hsent]
    exact .inr rfl

end

/-- The type that is chosen is the best type that a client accepts if and only if there is an Accept
    header and what the server rates best is what is best; a response that an object cannot be
    written to aside, and an object no encoding or language of which is accepted. -/
theorem negotiates_iff (types : MimeTypes) (writer : MimeType → Bool) (request : Request)
    (response : Response) (negotiable : Option Negotiable) :
    Negotiates types writer request response negotiable ↔
      (response.mimeType = none → Writable types writer request → response.Open →
        AspectsAccepted request response negotiable ∧
        ∃ accept, request.accept = some accept ∧
          ∀ t, Best types writer accept.guess t → Best types writer accept.quality t) := by
  constructor
  · intro h hmime hwritable hopen
    have hresult := h hmime hwritable
    cases haccept : request.accept with
    | none =>
      -- the tree of what is accepted is empty
      obtain ⟨t, ht⟩ := exists_head hwritable ⟨.stored, .stored, .stored, .stored, .stored⟩
        request.acceptedMimeTypes
      refine absurd ?_ (hresult ⟨.stored, .stored, .stored, .stored, .stored⟩).1
      rw [writeObject_eq hmime hopen ht, Request.acceptTree, Request.acceptedMimeTypes, haccept]
      rfl
    | some accept =>
      have haccepted : request.acceptedMimeTypes = accept := by
        rw [Request.acceptedMimeTypes, haccept]; rfl
      have hwritten : ∀ {o t}, (negotiateMimeTypes o types writer accept).head? = some t →
          writeObject o types writer request response negotiable = .ok t ∧
            AspectsAccepted request response negotiable := by
        intro o t ht
        have hne := (hresult o).1
        rw [writeObject_eq hmime hopen (haccepted ▸ ht)] at hne ⊢
        split at hne
        · next hin =>
          rw [if_pos hin]
          cases negotiable with
          | none => exact ⟨rfl, trivial⟩
          | some n =>
            rcases negotiateAspects_cases o request n hopen.2 with ⟨hok, haspects⟩ | ⟨herror, _⟩
            · dsimp only
              rw [hok]
              exact ⟨rfl, haspects⟩
            · dsimp only at hne
              rw [herror] at hne
              exact absurd rfl hne
        · exact absurd rfl hne
      obtain ⟨t, ht⟩ := exists_head hwritable ⟨.stored, .stored, .stored, .stored, .stored⟩ accept
      refine ⟨(hwritten ht).2, accept, rfl, fun t ht => ?_⟩
      obtain ⟨o, ho⟩ := exists_head_of_best ht
      have hquality : request.quality = accept.quality := by
        funext t
        rw [Request.quality, haccept]
      exact hquality ▸ (hresult o).2 t (hwritten ho).1
  · intro h hmime hwritable o
    obtain ⟨t, ht⟩ := exists_head hwritable o request.acceptedMimeTypes
    by_cases hopen : response.Open
    · obtain ⟨haspects, accept, haccept, hbest⟩ := h hmime hwritable hopen
      have haccepted : request.acceptedMimeTypes = accept := by
        rw [Request.acceptedMimeTypes, haccept]; rfl
      have hquality : request.quality = accept.quality := by
        funext t
        rw [Request.quality, haccept]
      have hchosen : Best types writer request.quality t := by
        rw [hquality]
        exact hbest t (best_of_head (haccepted ▸ ht))
      have hin : doesAcceptMimeType t (request.acceptTree o) := by
        rw [Request.acceptTree, haccepted]
        exact doesAccept_of_quality (hquality ▸ quality_pos_of_best hwritable hchosen)
      have hok : writeObject o types writer request response negotiable = .ok t := by
        rw [writeObject_eq hmime hopen ht, if_pos hin]
        cases negotiable with
        | none => rfl
        | some n =>
          rcases negotiateAspects_cases o request n hopen.2 with ⟨hok, _⟩ | ⟨_, hnot⟩
          · dsimp only
            rw [hok]
            rfl
          · exact absurd haspects hnot
      rw [hok]
      refine ⟨by simp, fun t' ht' => ?_⟩
      cases ht'
      exact hchosen
    · rcases writeObject_of_not_open hmime hopen ht with h | h <;> rw [h]
      · exact ⟨by simp, fun t h => by cases h⟩
      · exact ⟨by simp, fun t h => by cases h⟩

/-- Without an Accept header nothing is accepted. -/
theorem refused_without_header : ¬ Negotiates
    (MimeTypes.initial.enable ("text", "plain") (4 / 5) (by norm_num)) (fun _ => true)
    ⟨none, ∅, ∅⟩ ⟨none, none, none, false, 0, false⟩ none := by
  intro h
  have hwritable : Writable (MimeTypes.initial.enable ("text", "plain") (4 / 5) (by norm_num))
      (fun _ => true) ⟨none, ∅, ∅⟩ :=
    ⟨("text", "plain"), min 1 (4 / 5),
      by simp only [MimeTypes.priority, MimeTypes.enable, AList.lookup_insert, Option.bind_some],
      rfl, one_pos⟩
  obtain ⟨t, ht⟩ := exists_head hwritable ⟨.stored, .stored, .stored, .stored, .stored⟩ .missing
  refine (h rfl hwritable ⟨.stored, .stored, .stored, .stored, .stored⟩).1 ?_
  rw [writeObject_eq rfl ⟨.inr rfl, rfl⟩ ht]
  rfl

end Feat.Web.Negotiation
