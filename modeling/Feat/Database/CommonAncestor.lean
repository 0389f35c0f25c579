import Feat.Database.MergeOnce

/- What `_find_common_ancestor` answers (`feat.database.conflicts`).

   The loop that collects the history of a revision follows `rev_from` through the
   lookup. When no revision is reached from itself this way the walk is over after
   as many revisions as the lookup has logs (`branch_isOk`), so the histories of
   all revisions are collected (`history_isOk`) and there is an answer
   (`findCommonAncestor_of_history`), whichever branch the dictionary hands out
   first.
   The candidates are those of that one branch, newest first; a revision common
   to all histories is on it, so the first common candidate is the latest common
   revision, and there is only one such revision to find. -/
namespace Feat.Database
open Hash Lineage Relation

variable {Rev Call : Type} [DecidableEq Rev]

/-! ## The answer is reached -/

/-- The walk back from a revision ends. -/
theorem branch_isOk {lookup : Lookup Rev Call} (hloop : Loopfree (parent lookup)) (rev : Rev) :
    ∃ l, branch lookup rev = .ok l := by
  have hkeys : ∀ v, Anc (parent lookup) rev v → parent lookup v ≠ none → v ∈ lookup.keys := by
    intro v _ hv
    have hlook : (lookup.lookup v).isSome := by
      cases hl : lookup.lookup v with
      | none => simp [parent, hl] at hv
      | some l => rfl
    exact AList.mem_keys.mp (AList.lookup_isSome.mp hlook)
  obtain ⟨t, ht⟩ := Option.isSome_iff_exists.mp (walk_isSome hloop lookup.keys rev hkeys)
  exact ⟨t.reverse, by simp only [branch, ht]⟩

theorem history_isOk {lookup : Lookup Rev Call} (hloop : Loopfree (parent lookup))
    (revs : List Rev) : ∃ hist, history lookup revs = .ok hist := by
  unfold history
  generalize (∅ : Dict Rev (List Rev)) = hist
  induction revs generalizing hist with
  | nil => exact ⟨hist, rfl⟩
  | cons rev rest ih =>
    obtain ⟨l, hl⟩ := branch_isOk hloop rev
    rw [List.foldlM_cons, hl]
    exact ih (hist.insert rev l)

/-- Once the histories are collected there is a branch to take the candidates from. -/
theorem findCommonAncestor_of_history {lookup : Lookup Rev Call} {revs : List Rev}
    {hist : Dict Rev (List Rev)} (hh : history lookup revs = .ok hist) (hne : revs ≠ [])
    (o : HashOrder Rev) : ∃ r, findCommonAncestor o lookup revs = .ok r := by
  obtain ⟨rev, hrev⟩ := List.exists_mem_of_ne_nil revs hne
  obtain ⟨l, hl⟩ := (history_spec hh).2 rev hrev
  have hmem : l ∈ Dict.values o hist := Dict.mem_values.mpr ⟨rev, hl⟩
  obtain ⟨first, hfirst⟩ : ∃ first, (Dict.values o hist).head? = some first := by
    cases hvalues : Dict.values o hist with
    | nil => rw [hvalues] at hmem; simp at hmem
    | cons first _ => exact ⟨first, rfl⟩
  refine ⟨first.reverse.find? (fun candidate => (Dict.values o hist).all (candidate ∈ ·)), ?_⟩
  unfold findCommonAncestor
  rw [hh]
  simp only [bind, Except.bind, hfirst, pure, Except.pure]

/-! ## The answer is the latest common revision -/

/-- `None` is returned only where the histories have nothing in common. -/
theorem findCommonAncestor_none {o : HashOrder Rev} {lookup : Lookup Rev Call} {revs : List Rev}
    (h : findCommonAncestor o lookup revs = .ok none) (v : Rev) :
    ¬ Common (parent lookup) revs v := by
  obtain ⟨rev, hm, t, ht, hist, hh, hfind⟩ := findCommonAncestor_ok h
  exact (no_common hm ht (in_branches_iff hh)).mp hfind v

/-- The answer is the latest common revision or, where there is none, `None`. -/
theorem findCommonAncestor_spec {o : HashOrder Rev} {lookup : Lookup Rev Call} {revs : List Rev}
    {r : Option Rev} (h : findCommonAncestor o lookup revs = .ok r) :
    (∀ v, r = some v → LatestCommon (parent lookup) revs v) ∧
    (r = none ↔ ∀ v, ¬ Common (parent lookup) revs v) := by
  cases r with
  | none => exact ⟨nofun, fun _ => findCommonAncestor_none h, fun _ => rfl⟩
  | some v =>
    have hlatest := findCommonAncestor_latest h
    refine ⟨?_, nofun, fun hno => absurd hlatest.1 (hno v)⟩
    intro w hw
    cases hw
    exact hlatest

/-- Two iteration orders lead to the same answer. -/
theorem findCommonAncestor_unique {o o' : HashOrder Rev} {lookup : Lookup Rev Call}
    {revs : List Rev} {r r' : Option Rev} (h : findCommonAncestor o lookup revs = .ok r)
    (h' : findCommonAncestor o' lookup revs = .ok r') : r = r' := by
  obtain ⟨hsome, hnone⟩ := findCommonAncestor_spec h
  obtain ⟨hsome', hnone'⟩ := findCommonAncestor_spec h'
  cases r with
  | none => exact (hnone'.mpr (hnone.mp rfl)).symm
  | some v =>
    cases r' with
    | none => exact hnone.mpr (hnone'.mp rfl)
    | some v' =>
      obtain ⟨rev, hm, t, ht, _⟩ := findCommonAncestor_ok h
      rw [latestCommon_unique hm ht (hsome v rfl) (hsome' v' rfl)]

/-- An answer found in one iteration order is found in every other. -/
theorem findCommonAncestor_congr {o : HashOrder Rev} {lookup : Lookup Rev Call} {revs : List Rev}
    {r : Option Rev} (h : findCommonAncestor o lookup revs = .ok r) (o' : HashOrder Rev) :
    findCommonAncestor o' lookup revs = .ok r := by
  obtain ⟨rev, hm, t, ht, hist, hh, _⟩ := findCommonAncestor_ok h
  obtain ⟨r', hr'⟩ := findCommonAncestor_of_history hh (List.ne_nil_of_mem hm) o'
  rw [hr', findCommonAncestor_unique hr' h]

/-- Without loops the search ends, with an answer that does not depend on the iteration order:
a common revision that no other common revision is made from, or `None` exactly when there is
no common revision. -/
theorem findCommonAncestor_answers (lookup : Lookup Rev Call) (revs : List Rev)
    (hloop : Loopfree (parent lookup)) (hne : revs ≠ []) :
    ∃ r, (∀ o, findCommonAncestor o lookup revs = .ok r) ∧
      (∀ v, r = some v → Common (parent lookup) revs v ∧
        ∀ w, Common (parent lookup) revs w → w ≠ v → ¬ Anc (parent lookup) w v) ∧
      (r = none ↔ ∀ v, ¬ Common (parent lookup) revs v) := by
  obtain ⟨hist, hh⟩ := history_isOk hloop revs
  obtain ⟨r, hr⟩ := findCommonAncestor_of_history hh hne .stored
  obtain ⟨hsome, hnone⟩ := findCommonAncestor_spec hr
  refine ⟨r, findCommonAncestor_congr hr, ?_, hnone⟩
  intro v hv
  have hlatest := hsome v hv
  refine ⟨hlatest.1, ?_⟩
  intro w hw hwv hanc
  -- each would be made from the other
  rcases reflTransGen_iff_eq_or_transGen.mp hanc with he | htrans
  · exact hwv he.symm
  · exact hloop w (htrans.trans_left (hlatest.2 w hw))

/-- The leaves of the fork. -/
theorem findCommonAncestor_fork :
    ∃ r, (∀ o, findCommonAncestor o (historyOf (fork none)) [1, 2] = .ok r) ∧
      (∀ v, r = some v → Common (parent (historyOf (fork none))) [1, 2] v ∧
        ∀ w, Common (parent (historyOf (fork none))) [1, 2] w → w ≠ v →
          ¬ Anc (parent (historyOf (fork none))) w v) ∧
      (r = none ↔ ∀ v, ¬ Common (parent (historyOf (fork none))) [1, 2] v) := by
  obtain ⟨rank, hr⟩ := acyclic_ranked (fork_acyclic none)
  exact findCommonAncestor_answers _ [1, 2] (ranked_loopfree hr.parent) (by decide)

-- The updates both branches start with are not the answer, the last of them is.
example : findCommonAncestor .reversed (lookupOf [.update (⟨some 0, 1, 1, 10⟩ :
    Update Nat Nat), .update ⟨some 1, 2, 2, 20⟩, .update ⟨some 1, 3, 3, 30⟩]) [2, 3] =
      .ok (some 1) := by decide

end Feat.Database
