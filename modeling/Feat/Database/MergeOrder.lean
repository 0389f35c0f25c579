import Feat.Database.CommonAncestor
import Feat.Lib.StableOrder

/- The order in which a merge applies the updates (`_solve_merge`).

   `_solve_merge` takes the logs out of the lookup in the order the dictionary
   yields them and sorts them by timestamp; the logs which lead to the common
   ancestor are then removed, which leaves the order of the others. Where no two
   of the logs that are left have one timestamp the list is the same for every
   order of the dictionaries, and a branch whose timestamps do not decrease comes
   out in the order of its revisions. Two logs with one timestamp come out in the
   order the dictionary yielded them, so a dictionary and its reverse lead to
   different lists. `solveMerge_ordered_iff` puts this together; `tie_reorders` is
   a branch of two updates with one timestamp which is applied back to front. -/
namespace Feat.Database
open Hash Lineage Relation StableOrder

variable {Rev Call Body : Type} [DecidableEq Rev]

/-- The plain logs of a branch, oldest first, come with timestamps that do not decrease. -/
def Chronological (lookup : Lookup Rev Call) (leaves : List Rev) : Prop :=
  ∀ leaf ∈ leaves, ∀ l, branch lookup leaf = .ok l → ∀ x y : Update Rev Call,
    lookup.lookup x.revTo = some (.update x) → lookup.lookup y.revTo = some (.update y) →
    Before l x.revTo y.revTo → x.timestamp ≤ y.timestamp

/-- The logs of every branch are applied in the order of the branch. -/
def InBranchOrder (lookup : Lookup Rev Call) (leaves : List Rev)
    (logs : List (Update Rev Call)) : Prop :=
  ∀ leaf ∈ leaves, ∀ l, branch lookup leaf = .ok l → ∀ x ∈ logs, ∀ y ∈ logs,
    Before l x.revTo y.revTo → Before logs x y

/-- What a merge has to do about order: it goes through whatever the order of the dictionaries,
with one list of logs, in which every branch keeps its own order. -/
def MergesInOrder [DecidableEq Body] (db : Partition Rev Call Body) (doc : Document Rev Body)
    (conflicts : List Rev) : Prop :=
  ∃ root logs, (∀ o, solveMerge o db doc conflicts = .ok (.performMerge root logs)) ∧
    InBranchOrder (historyOf db) (doc.rev :: conflicts) logs

/-- No two of the plain logs that do not lead to the latest common ancestor have one timestamp. -/
def DistinctTimes (db : Partition Rev Call Body) (winner : Rev) (conflicts : List Rev) : Prop :=
  ∀ r, LatestCommon (parent (historyOf db)) (winner :: conflicts) r → ∀ x y : Update Rev Call,
    (historyOf db).lookup x.revTo = some (.update x) → ¬ Leads (historyOf db) r x.revTo →
    (historyOf db).lookup y.revTo = some (.update y) → ¬ Leads (historyOf db) r y.revTo →
    x.timestamp = y.timestamp → x = y

/-! ## The logs and the order of the dictionary -/

/-- The plain logs of the lookup as the dictionary yields them. -/
def yielded (o : HashOrder Rev) (lookup : Lookup Rev Call) : List (Update Rev Call) :=
  (Dict.values o lookup).filterMap UpdateLog.plain

/-- The logs a merge from `r` hands on are a part of the sorted list. -/
theorem mergeLogs_sublist (o : HashOrder Rev) (lookup : Lookup Rev Call) (r : Rev) :
    (removeTargetRev (plainLogs o lookup) r).Sublist
      (byKey Update.timestamp (yielded o lookup)) :=
  removeTargetRevN_sublist _ _ _

theorem mergeLogs_nodup {o : HashOrder Rev} {lookup : Lookup Rev Call} (hk : Keyed lookup) (r : Rev) :
    (removeTargetRev (plainLogs o lookup) r).Nodup :=
  (removeTargetRev_nodup _ r (plainLogs_nodup hk)).of_map _

theorem yielded_nodup {o : HashOrder Rev} {lookup : Lookup Rev Call} (hk : Keyed lookup) :
    (yielded o lookup).Nodup :=
  byKey_perm.nodup_iff.mp ((plainLogs_nodup (o := o) hk).of_map _)

theorem yielded_reversed (lookup : Lookup Rev Call) :
    yielded .reversed lookup = (yielded .stored lookup).reverse := by
  simp only [yielded, Dict.values_reversed, List.filterMap_reverse]

/-- A merge that goes through in one order of the dictionaries goes through in every order, from
the same base and the same ancestor. -/
theorem solveMerge_congr [DecidableEq Body] {o : HashOrder Rev} {db : Partition Rev Call Body}
    {doc root : Document Rev Body} {conflicts : List Rev} {logs : List (Update Rev Call)}
    (h : solveMerge o db doc conflicts = .ok (.performMerge root logs)) :
    ∃ r, (∀ r', LatestCommon (parent (historyOf db)) (doc.rev :: conflicts) r' ↔ r' = r) ∧
      ∀ o', solveMerge o' db doc conflicts =
        .ok (.performMerge root (removeTargetRev (plainLogs o' (historyOf db)) r)) := by
  unfold solveMerge at h
  simp only [bind, Except.bind, pure, Except.pure] at h
  split at h
  · cases h
  · rename_i same hsame
    split at h
    · cases h
    · rename_i hdiffer
      split at h
      · cases h
      · rename_i anc hanc
        split at h
        · cases h
        · rename_i r
          split at h
          · cases h
          · rename_i base hbase
            cases h
            have hlatest := findCommonAncestor_latest hanc
            obtain ⟨rev, hm, t, ht, _⟩ := findCommonAncestor_ok hanc
            refine ⟨r, fun r' => ⟨fun hr' => latestCommon_unique hm ht hr' hlatest, ?_⟩, ?_⟩
            · rintro rfl
              exact hlatest
            intro o'
            unfold solveMerge
            simp only [bind, Except.bind, pure, Except.pure, hsame, hdiffer,
              findCommonAncestor_congr hanc o', hbase]
            rfl

/-! ## Order -/

section Order
variable {o : HashOrder Rev} {lookup : Lookup Rev Call} {leaves : List Rev} {r : Rev}

/-- Without ties every branch keeps its order. -/
theorem mergeLogs_inBranchOrder (hk : Keyed lookup) (hchron : Chronological lookup leaves)
    (hdistinct : ∀ x ∈ removeTargetRev (plainLogs o lookup) r,
      ∀ y ∈ removeTargetRev (plainLogs o lookup) r, x.timestamp = y.timestamp → x = y) :
    InBranchOrder lookup leaves (removeTargetRev (plainLogs o lookup) r) := by
  intro leaf hleaf l hl x hx y hy hbefore
  have hle := hchron leaf hleaf l hl x y ((mem_mergeLogs hk).mp hx).1 ((mem_mergeLogs hk).mp hy).1
    hbefore
  obtain ⟨t, ht, rfl⟩ := branch_ok hl
  have hne : x ≠ y := by
    rintro rfl
    exact ne_of_before (List.nodup_reverse.mpr (walk_nodup ht)) hbefore rfl
  rcases before_or hx hy hne with h | h
  · exact h
  · have hge := le_of_before (mergeLogs_sublist o lookup r) h
    exact absurd (hdistinct x hx y hy (Nat.le_antisymm hle hge)) hne

/-- With a tie a dictionary and its reverse lead to different lists. -/
theorem mergeLogs_ne (hk : Keyed lookup) {x y : Update Rev Call}
    (hx : x ∈ removeTargetRev (plainLogs .stored lookup) r)
    (hy : y ∈ removeTargetRev (plainLogs .stored lookup) r) (hne : x ≠ y)
    (htie : x.timestamp = y.timestamp) :
    removeTargetRev (plainLogs .stored lookup) r ≠ removeTargetRev (plainLogs .reversed lookup) r :=
  ne_of_tie (yielded_nodup hk) (mergeLogs_sublist .stored lookup r)
    (yielded_reversed lookup ▸ mergeLogs_sublist .reversed lookup r) hx hy hne htie

end Order

/-- The order of the merge is the order of its branches, whatever the order of the dictionaries,
exactly when no two of the merged logs have one timestamp. -/
theorem solveMerge_ordered_iff [DecidableEq Body] (o : HashOrder Rev)
    (db : Partition Rev Call Body) (doc root : Document Rev Body) (conflicts : List Rev)
    (logs : List (Update Rev Call))
    (h : solveMerge o db doc conflicts = .ok (.performMerge root logs))
    (hchron : Chronological (historyOf db) (doc.rev :: conflicts)) :
    MergesInOrder db doc conflicts ↔ DistinctTimes db doc.rev conflicts := by
  have hk : Keyed (historyOf db) := historyOf_keyed db
  obtain ⟨r, hlatest, hall⟩ := solveMerge_congr h
  constructor
  · rintro ⟨root', logs', hsame, _⟩ r' hr' x y hx hxr hy hyr htie
    obtain rfl := (hlatest r').mp hr'
    have hlogs : ∀ o', removeTargetRev (plainLogs o' (historyOf db)) r' = logs' := by
      intro o'
      have := (hall o').symm.trans (hsame o')
      injection this with this
      injection this
    by_contra hne
    refine mergeLogs_ne hk ((mem_mergeLogs hk).mpr ⟨hx, hxr⟩) ((mem_mergeLogs hk).mpr ⟨hy, hyr⟩)
      hne htie ?_
    rw [hlogs, hlogs]
  · intro hdistinct
    have hkeys : ∀ x ∈ removeTargetRev (plainLogs o (historyOf db)) r,
        ∀ y ∈ removeTargetRev (plainLogs o (historyOf db)) r, x.timestamp = y.timestamp → x = y := by
      intro x hx y hy htie
      obtain ⟨hx, hxr⟩ := (mem_mergeLogs hk).mp hx
      obtain ⟨hy, hyr⟩ := (mem_mergeLogs hk).mp hy
      exact hdistinct r ((hlatest r).mpr rfl) x y hx hxr hy hyr htie
    refine ⟨root, removeTargetRev (plainLogs o (historyOf db)) r, ?_,
      mergeLogs_inBranchOrder hk hchron hkeys⟩
    intro o'
    have hsame : removeTargetRev (plainLogs o (historyOf db)) r =
        removeTargetRev (plainLogs o' (historyOf db)) r :=
      eq_of_keys (mergeLogs_sublist o _ r) (mergeLogs_sublist o' _ r) (mergeLogs_nodup hk r)
        (mergeLogs_nodup hk r) (fun x => (mem_mergeLogs hk).trans (mem_mergeLogs hk).symm) hkeys
    rw [hsame]
    exact hall o'

/-! Revision 0 was updated to 1 and that to 2, the winner, and 0 to 3, the conflict. -/

/-- The logs of the two branches, the second update of the winner's made at `time`. -/
def twoBranches (time : Nat) : Partition Nat Nat Nat where
  logs := [.update ⟨some 0, 1, 1, 10⟩, .update ⟨some 1, 2, time, 20⟩, .update ⟨some 0, 3, 5, 30⟩]
  serves := some

theorem twoBranches_branch {time : Nat} (htime : time = 1 ∨ time = 2) :
    branch (historyOf (twoBranches time)) 2 = .ok [0, 1, 2] ∧
    branch (historyOf (twoBranches time)) 3 = .ok [0, 3] := by
  rcases htime with rfl | rfl <;> decide

theorem twoBranches_chronological {time : Nat} (htime : time = 1 ∨ time = 2) :
    Chronological (historyOf (twoBranches time)) [2, 3] := by
  intro leaf hleaf l hl x y hx hy hbefore
  obtain ⟨hbranch, hbranch'⟩ := twoBranches_branch htime
  have hmem : ∀ z, (historyOf (twoBranches time)).lookup z.revTo = some (.update z) →
      z = ⟨some 0, 1, 1, 10⟩ ∨ z = ⟨some 1, 2, time, 20⟩ ∨ z = ⟨some 0, 3, 5, 30⟩ := by
    intro z hz
    have := (lookupOf_spec hz).1
    simpa [twoBranches, expandMerges, UpdateLog.carried] using this
  -- the only log with a later timestamp made revision 3, and nothing follows that
  have hnot : x.revTo ≠ 3 := by
    intro h3
    rw [h3] at hbefore
    rcases List.mem_pair.mp hleaf with rfl | rfl
    · rw [hbranch] at hl
      cases hl
      exact absurd (before_mem hbefore).1 (by decide)
    · rw [hbranch'] at hl
      cases hl
      rcases hmem y hy with rfl | rfl | rfl <;> exact absurd hbefore (by dsimp only; decide)
  have hnot' : y.revTo ≠ 1 := by
    intro h1
    rw [h1] at hbefore
    rcases List.mem_pair.mp hleaf with rfl | rfl
    · rw [hbranch] at hl
      cases hl
      rcases hmem x hx with rfl | rfl | rfl <;> exact absurd hbefore (by dsimp only; decide)
    · rw [hbranch'] at hl
      cases hl
      exact absurd (before_mem hbefore).2 (by decide)
  rcases hmem x hx with rfl | rfl | rfl
  · rcases hmem y hy with rfl | rfl | rfl
    · exact Nat.le_refl _
    · show 1 ≤ time
      omega
    · exact (by decide : 1 ≤ 5)
  · rcases hmem y hy with rfl | rfl | rfl
    · exact absurd rfl hnot'
    · exact Nat.le_refl _
    · show time ≤ 5
      omega
  · exact absurd rfl hnot

/-- With three timestamps there is one order. -/
theorem twoBranches_ordered :
    MergesInOrder (twoBranches 2) ⟨2, 2⟩ [3] ↔ DistinctTimes (twoBranches 2) 2 [3] :=
  solveMerge_ordered_iff .stored (twoBranches 2) ⟨2, 2⟩ ⟨0, 0⟩ [3]
    [⟨some 0, 1, 1, 10⟩, ⟨some 1, 2, 2, 20⟩, ⟨some 0, 3, 5, 30⟩] (by decide)
    (twoBranches_chronological (Or.inr rfl))

/-- With one timestamp for both updates of the winner's branch a dictionary that yields the later
one first has it applied first. -/
theorem tie_reorders :
    Chronological (historyOf (twoBranches 1)) [2, 3] ∧
    solveMerge .reversed (twoBranches 1) ⟨2, 2⟩ [3] = .ok (.performMerge ⟨0, 0⟩
      [⟨some 0, 1, 1, 10⟩, ⟨some 1, 2, 1, 20⟩, ⟨some 0, 3, 5, 30⟩]) ∧
    (∃ logs, solveMerge .stored (twoBranches 1) ⟨2, 2⟩ [3] = .ok (.performMerge ⟨0, 0⟩ logs) ∧
      ¬ InBranchOrder (historyOf (twoBranches 1)) [2, 3] logs) ∧
    ¬ MergesInOrder (twoBranches 1) ⟨2, 2⟩ [3] := by
  have hlater : solveMerge .stored (twoBranches 1) ⟨2, 2⟩ [3] = .ok (.performMerge ⟨0, 0⟩
      [⟨some 1, 2, 1, 20⟩, ⟨some 0, 1, 1, 10⟩, ⟨some 0, 3, 5, 30⟩]) := by decide
  have hnot : ¬ InBranchOrder (historyOf (twoBranches 1)) [2, 3]
      [⟨some 1, 2, 1, 20⟩, ⟨some 0, 1, 1, 10⟩, ⟨some 0, 3, 5, 30⟩] := by
    intro h
    have := h 2 (by decide) [0, 1, 2] (twoBranches_branch (Or.inl rfl)).1 ⟨some 0, 1, 1, 10⟩
      (by decide) ⟨some 1, 2, 1, 20⟩ (by decide) (by decide)
    exact absurd this (by decide)
  refine ⟨twoBranches_chronological (Or.inl rfl), by decide, ⟨_, hlater, hnot⟩, ?_⟩
  rintro ⟨root, logs, hsame, horder⟩
  have := hlater.symm.trans (hsame .stored)
  injection this with this
  injection this with _ hlogs
  exact hnot (hlogs ▸ horder)

end Feat.Database
