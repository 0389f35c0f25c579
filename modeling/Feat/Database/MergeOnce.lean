import Feat.Database.Conflicts

/- Which updates a merge applies (`_solve_merge`).

   The history of a document is the lookup of its logs: the log on record for a
   revision says which revision it was made from, and the update that made a
   revision is part of every revision made from it (`PartOf`). A merge also brings
   in the updates it carries. `AppliesEachOnce` is what a merge has to do: starting
   from the base, apply each update some leaf has and the base does not exactly
   once, and none the base has.

   `_solve_merge` picks the latest common ancestor as the base
   (`findCommonAncestor_latest`) and hands on every plain log of the lookup but
   those leading to the ancestor through plain logs (`mem_mergeLogs`). So no
   update is ever missing, and updates the base already has are applied again in
   two cases: below a merge in the common history the removal stops, and when the
   ancestor is gone the winner is the base but the logs leading to it stay in the
   list. `solveMerge_appliesEachOnce_iff` shows these are the only two. -/
namespace Feat.Database
open Hash Lineage Relation

variable {Rev Call Body : Type} [DecidableEq Rev]

/-- The update that made revision `u` is part of the given revision. -/
inductive PartOf (lookup : Lookup Rev Call) (u : Rev) : Rev → Prop where
  | own {x : Update Rev Call} : lookup.lookup u = some (.update x) → PartOf lookup u u
  | carried {v : Rev} {m : Merge Rev Call} {k : Update Rev Call} :
      lookup.lookup v = some (.merge m) → k ∈ m.logs → k.revTo = u → PartOf lookup u v
  | inherited {v p : Rev} {l : UpdateLog Rev Call} :
      lookup.lookup v = some l → l.revFrom = some p → PartOf lookup u p → PartOf lookup u v

/-- What a merge of `leaves` from `base` has to apply. -/
structure AppliesEachOnce (lookup : Lookup Rev Call) (leaves : List Rev) (base : Rev)
    (logs : List (Update Rev Call)) : Prop where
  complete : ∀ leaf ∈ leaves, ∀ u, PartOf lookup u leaf → ¬ PartOf lookup u base →
    ∃ x, lookup.lookup u = some (.update x) ∧ logs.filter (fun y => y.revTo = u) = [x]
  fresh : ∀ x ∈ logs, ¬ PartOf lookup x.revTo base

/-- The history the view rows describe. -/
def historyOf (db : Partition Rev Call Body) : Lookup Rev Call := lookupOf (expandMerges db.logs)

/-- The history has no cycle: a rank is lowered by going from a revision to the one it was
made from, and from a merge to the updates it carries. -/
def Acyclic (logs : List (UpdateLog Rev Call)) : Prop :=
  ∃ rank : Rev → Nat, ∀ l ∈ expandMerges logs,
    (∀ p, l.revFrom = some p → rank p < rank l.revTo) ∧ ∀ k ∈ l.carried, rank k.revTo < rank l.revTo

/-- When the merge applies each update once: no revision common to the histories of all leaves
was made by a merge, and the latest such revision can be served or the winner holds no
update from outside of the common history. -/
def MergesOnce (db : Partition Rev Call Body) (winner : Rev) (conflicts : List Rev) : Prop :=
  let lookup := historyOf db
  let common := Common (parent lookup) (winner :: conflicts)
  (∀ v m, common v → lookup.lookup v ≠ some (.merge m)) ∧
  ((∀ r, LatestCommon (parent lookup) (winner :: conflicts) r → (db.serves r).isSome) ∨
    ∀ u, PartOf lookup u winner → common u)

/-! ## The lookup -/

theorem lookupOf_spec {logs : List (UpdateLog Rev Call)} {v : Rev} {l : UpdateLog Rev Call}
    (h : (lookupOf logs).lookup v = some l) : l ∈ logs ∧ l.revTo = v := by
  obtain ⟨x, hx, he⟩ := List.mem_map.mp (Dict.mem_of_lookup_ofList h)
  simp only [Prod.mk.injEq] at he
  obtain ⟨rfl, rfl⟩ := he
  exact ⟨hx, rfl⟩

omit [DecidableEq Rev] in
theorem merge_mem_logs {logs : List (UpdateLog Rev Call)} {m : Merge Rev Call}
    (h : .merge m ∈ expandMerges logs) : .merge m ∈ logs := by
  rcases List.mem_append.mp h with h | h
  · exact h
  · obtain ⟨k, _, hk⟩ := List.mem_map.mp h
    cases hk

/-- What a merge carries is on record as a plain update: the carried logs are added last. -/
theorem lookup_carried {logs : List (UpdateLog Rev Call)} {v : Rev} {m : Merge Rev Call}
    {k : Update Rev Call} (hv : (lookupOf (expandMerges logs)).lookup v = some (.merge m))
    (hk : k ∈ m.logs) : ∃ x, (lookupOf (expandMerges logs)).lookup k.revTo = some (.update x) := by
  have hmem : UpdateLog.update k ∈ (logs.flatMap UpdateLog.carried).map .update :=
    List.mem_map.mpr ⟨k, List.mem_flatMap.mpr ⟨.merge m, merge_mem_logs (lookupOf_spec hv).1, hk⟩, rfl⟩
  generalize hc : (logs.flatMap UpdateLog.carried).map UpdateLog.update = carried at hmem
  have hplain : ∀ l ∈ carried, ∃ x, l = .update x := by
    intro l hl
    rw [← hc] at hl
    obtain ⟨x, _, rfl⟩ := List.mem_map.mp hl
    exact ⟨x, rfl⟩
  rw [lookupOf, Dict.lookup_ofList, expandMerges, hc, List.map_append, List.reverse_append,
    List.find?_append]
  cases hf : (carried.map (fun x => (x.revTo, x))).reverse.find? (fun p => p.1 = k.revTo) with
  | none =>
    rw [List.find?_eq_none] at hf
    exact absurd (by simp) (hf (k.revTo, .update k)
      (List.mem_reverse.mpr (List.mem_map.mpr ⟨_, hmem, rfl⟩)))
  | some p =>
    obtain ⟨l, hl, rfl⟩ := List.mem_map.mp (List.mem_reverse.mp (List.mem_of_find?_eq_some hf))
    obtain ⟨x, rfl⟩ := hplain l hl
    exact ⟨x, rfl⟩

/-- The lookup is a `dict` of logs by the revision they made. -/
def Keyed (lookup : Lookup Rev Call) : Prop := ∀ v l, lookup.lookup v = some l → l.revTo = v

theorem historyOf_keyed (db : Partition Rev Call Body) : Keyed (historyOf db) :=
  fun _ _ hl => (lookupOf_spec hl).2

/-- The rank of an acyclic history, as a fact about its lookup. -/
structure RankedLookup (lookup : Lookup Rev Call) (rank : Rev → Nat) : Prop where
  parent : Ranked (parent lookup) rank
  carried : ∀ v m, lookup.lookup v = some (.merge m) → ∀ k ∈ m.logs, rank k.revTo < rank v
  plain : ∀ v m, lookup.lookup v = some (.merge m) → ∀ k ∈ m.logs,
    ∃ x, lookup.lookup k.revTo = some (.update x)
  key : ∀ v l, lookup.lookup v = some l → l.revTo = v

theorem acyclic_ranked {db : Partition Rev Call Body} (h : Acyclic db.logs) :
    ∃ rank, RankedLookup (historyOf db) rank := by
  obtain ⟨rank, hr⟩ := h
  refine ⟨rank, ?_, ?_, ?_, ?_⟩
  · intro v p hp
    obtain ⟨l, hl, hfrom⟩ := Option.bind_eq_some_iff.mp hp
    obtain ⟨hmem, rfl⟩ := lookupOf_spec hl
    exact (hr l hmem).1 p hfrom
  · intro v m hm k hk
    obtain ⟨hmem, hto⟩ := lookupOf_spec hm
    have := (hr _ hmem).2 k hk
    rwa [hto] at this
  · intro v m hm k hk
    exact lookup_carried hm hk
  · intro v l hl
    exact (lookupOf_spec hl).2

/-! ## The common ancestor -/

theorem branch_ok {lookup : Lookup Rev Call} {rev : Rev} {l : List Rev}
    (h : branch lookup rev = .ok l) :
    ∃ t, walk (parent lookup) (lookup.keys.length + 1) rev = some t ∧ l = t.reverse := by
  unfold branch at h
  split at h
  · rename_i t ht
    exact ⟨t, ht, (Except.ok.inj h).symm⟩
  · cases h

theorem history_fold {lookup : Lookup Rev Call} : ∀ (revs : List Rev) (h₀ h : Dict Rev (List Rev)),
    revs.foldlM (fun h rev => return h.insert rev (← branch lookup rev)) h₀ = .ok h →
    (∀ rev l, h.lookup rev = some l →
      (rev ∈ revs ∧ branch lookup rev = .ok l) ∨ h₀.lookup rev = some l) ∧
    (∀ rev, rev ∈ revs ∨ (h₀.lookup rev).isSome → (h.lookup rev).isSome)
  | [], h₀, h, hf => by
    cases hf
    exact ⟨fun _ _ hl => Or.inr hl, fun _ hr => hr.elim (fun hm => by simp at hm) id⟩
  | rev :: rest, h₀, h, hf => by
    rw [List.foldlM_cons] at hf
    cases hb : branch lookup rev with
    | error e => rw [hb] at hf; cases hf
    | ok l =>
      rw [hb] at hf
      obtain ⟨ih₁, ih₂⟩ := history_fold rest (h₀.insert rev l) h hf
      refine ⟨?_, ?_⟩
      · intro r t hr
        rcases ih₁ r t hr with ⟨hm, ht⟩ | hi
        · exact Or.inl ⟨List.mem_cons_of_mem _ hm, ht⟩
        · by_cases he : r = rev
          · subst he
            rw [AList.lookup_insert] at hi
            exact Or.inl ⟨List.mem_cons_self, by rw [hb, Option.some.inj hi]⟩
          · rw [AList.lookup_insert_ne he] at hi
            exact Or.inr hi
      · intro r hr
        apply ih₂
        by_cases he : r = rev
        · subst he; simp
        · rw [AList.lookup_insert_ne he]
          rcases hr with hm | hs
          · exact Or.inl ((List.mem_cons.mp hm).resolve_left he)
          · exact Or.inr hs

/-- The history dict holds, for exactly the given revisions, their walks. -/
theorem history_spec {lookup : Lookup Rev Call} {revs : List Rev} {h : Dict Rev (List Rev)}
    (hh : history lookup revs = .ok h) :
    (∀ rev l, h.lookup rev = some l → rev ∈ revs ∧ branch lookup rev = .ok l) ∧
    ∀ rev ∈ revs, ∃ l, h.lookup rev = some l := by
  obtain ⟨h₁, h₂⟩ := history_fold revs ∅ h hh
  refine ⟨?_, ?_⟩
  · intro rev l hl
    rcases h₁ rev l hl with hm | he
    · exact hm
    · simp at he
  · intro rev hm
    exact Option.isSome_iff_exists.mp (h₂ rev (Or.inl hm))

/-- To be in every branch is to be common to the histories of `revs`. -/
theorem in_branches_iff {o : HashOrder Rev} {lookup : Lookup Rev Call} {revs : List Rev}
    {hist : Dict Rev (List Rev)} (hh : history lookup revs = .ok hist) (v : Rev) :
    (Dict.values o hist).all (v ∈ ·) = true ↔ Common (parent lookup) revs v := by
  obtain ⟨hkeys, hall⟩ := history_spec hh
  simp only [List.all_eq_true, decide_eq_true_eq]
  constructor
  · intro hv rev hrev
    obtain ⟨l, hl⟩ := hall rev hrev
    obtain ⟨t, ht, rfl⟩ := branch_ok (hkeys rev l hl).2
    have := hv t.reverse (Dict.mem_values.mpr ⟨rev, hl⟩)
    exact (mem_walk ht).mp (List.mem_reverse.mp this)
  · intro hv l hl
    obtain ⟨rev, hrev⟩ := Dict.mem_values.mp hl
    obtain ⟨hm, hb⟩ := hkeys rev l hrev
    obtain ⟨t, ht, rfl⟩ := branch_ok hb
    exact List.mem_reverse.mpr ((mem_walk ht).mpr (hv rev hm))

/-- What `_find_common_ancestor` returns is the first revision common to all histories on the
walk from some revision. -/
theorem findCommonAncestor_ok {o : HashOrder Rev} {lookup : Lookup Rev Call} {revs : List Rev}
    {r : Option Rev} (h : findCommonAncestor o lookup revs = .ok r) :
    ∃ rev ∈ revs, ∃ t, walk (parent lookup) (lookup.keys.length + 1) rev = some t ∧
      ∃ hist, history lookup revs = .ok hist ∧
        t.find? (fun candidate => (Dict.values o hist).all (candidate ∈ ·)) = r := by
  unfold findCommonAncestor at h
  cases hh : history lookup revs with
  | error e => rw [hh] at h; cases h
  | ok hist =>
    rw [hh] at h
    simp only [bind, Except.bind] at h
    cases hfirst : (Dict.values o hist).head? with
    | none => rw [hfirst] at h; cases h
    | some first =>
      rw [hfirst] at h
      obtain ⟨rev, hrev⟩ := Dict.mem_values.mp (List.mem_of_head? hfirst)
      obtain ⟨hm, hb⟩ := (history_spec hh).1 rev first hrev
      obtain ⟨t, ht, rfl⟩ := branch_ok hb
      have hfind := Except.ok.inj h
      rw [List.reverse_reverse] at hfind
      exact ⟨rev, hm, t, ht, hist, rfl, hfind⟩

/-- `_find_common_ancestor` returns the latest revision common to all histories. -/
theorem findCommonAncestor_latest {o : HashOrder Rev} {lookup : Lookup Rev Call} {revs : List Rev}
    {r : Rev} (h : findCommonAncestor o lookup revs = .ok (some r)) :
    LatestCommon (parent lookup) revs r := by
  obtain ⟨rev, hm, t, ht, hist, hh, hfind⟩ := findCommonAncestor_ok h
  exact latest_common hm ht (in_branches_iff hh) hfind

/-! ## The logs the removal takes out -/

/-- `p` is where the plain log on record for `a` started from. -/
def PlainStep (lookup : Lookup Rev Call) (a p : Rev) : Prop :=
  ∃ x : Update Rev Call, lookup.lookup a = some (.update x) ∧ x.revFrom = some p

/-- `v` is reached from `r` by going back through plain logs only. -/
def Leads (lookup : Lookup Rev Call) : Rev → Rev → Prop := ReflTransGen (PlainStep lookup)

theorem plainStep_parent {lookup : Lookup Rev Call} {a p : Rev} (h : PlainStep lookup a p) :
    parent lookup a = some p := by
  obtain ⟨x, hx, hp⟩ := h
  simp [parent, hx, hp]

theorem leads_anc {lookup : Lookup Rev Call} {r v : Rev} (h : Leads lookup r v) :
    Anc (parent lookup) r v :=
  ReflTransGen.mono (fun _ _ => plainStep_parent) _ _ h

theorem leads_total {lookup : Lookup Rev Call} {r a b : Rev} (ha : Leads lookup r a)
    (hb : Leads lookup r b) : Leads lookup a b ∨ Leads lookup b a := by
  refine ReflTransGen.total_of_right_unique ?_ ha hb
  intro a p q hp hq
  exact step_unique (plainStep_parent hp) (plainStep_parent hq)

/-- No plain log leads on from a revision made by a merge. -/
theorem leads_of_merge {lookup : Lookup Rev Call} {w v : Rev} {m : Merge Rev Call}
    (hw : lookup.lookup w = some (.merge m)) (h : Leads lookup w v) : v = w := by
  rcases ReflTransGen.cases_head h with rfl | ⟨p, ⟨x, hx, _⟩, _⟩
  · rfl
  · rw [hw] at hx; cases hx

/-- Where the history of `r` holds no merge, plain logs lead to all of it. -/
theorem anc_leads {lookup : Lookup Rev Call} {r v : Rev} (h : Anc (parent lookup) r v)
    (hno : ∀ w m, Anc (parent lookup) r w → lookup.lookup w ≠ some (.merge m)) :
    Leads lookup r v := by
  induction h with
  | refl => exact ReflTransGen.refl
  | @tail b c hb hs ih =>
    obtain ⟨l, hl, hp⟩ := Option.bind_eq_some_iff.mp hs
    cases l with
    | update x => exact ih.tail ⟨x, hl, hp⟩
    | merge m => exact absurd hl (hno b m hb)

/-- On the way to a merge there is a first one, which plain logs lead to. -/
theorem first_merge {lookup : Lookup Rev Call} {r v : Rev} {m : Merge Rev Call}
    (h : Anc (parent lookup) r v) (hv : lookup.lookup v = some (.merge m)) :
    ∃ w m', lookup.lookup w = some (.merge m') ∧ Leads lookup r w := by
  induction h using ReflTransGen.head_induction_on with
  | refl => exact ⟨v, m, hv, ReflTransGen.refl⟩
  | @head a p hs _ ih =>
    obtain ⟨l, hl, hp⟩ := Option.bind_eq_some_iff.mp hs
    cases l with
    | merge m' => exact ⟨a, m', hl, ReflTransGen.refl⟩
    | update x =>
      obtain ⟨w, m', hw, hlead⟩ := ih
      exact ⟨w, m', hw, hlead.head ⟨x, hl, hp⟩⟩

theorem mem_plainLogs {o : HashOrder Rev} {lookup : Lookup Rev Call} (hk : Keyed lookup)
    {x : Update Rev Call} :
    x ∈ plainLogs o lookup ↔ lookup.lookup x.revTo = some (.update x) := by
  simp only [plainLogs, (List.perm_insertionSort _ _).mem_iff, List.mem_filterMap,
    UpdateLog.plain_eq_some, Dict.mem_values]
  constructor
  · rintro ⟨l, ⟨v, hv⟩, rfl⟩
    have := hk v _ hv
    rw [UpdateLog.revTo_update] at this
    rwa [this]
  · intro h
    exact ⟨_, ⟨_, h⟩, rfl⟩

theorem plainLogs_nodup {o : HashOrder Rev} {lookup : Lookup Rev Call} (hk : Keyed lookup) :
    ((plainLogs o lookup).map Update.revTo).Nodup := by
  have hperm : ((plainLogs o lookup).map Update.revTo).Perm
      (((Dict.values o lookup).filterMap UpdateLog.plain).map Update.revTo) :=
    (List.perm_insertionSort _ _).map _
  rw [hperm.nodup_iff]
  have hsub : ∀ ps : List (Rev × UpdateLog Rev Call), (∀ p ∈ ps, p.2.revTo = p.1) →
      (((ps.map Prod.snd).filterMap UpdateLog.plain).map Update.revTo).Sublist
        (ps.map Prod.fst) := by
    intro ps
    induction ps with
    | nil => intro _; simp
    | cons p ps ih =>
      intro hp
      have ih := ih (fun q hq => hp q (List.mem_cons_of_mem _ hq))
      obtain ⟨k, l⟩ := p
      have hk := hp (k, l) List.mem_cons_self
      cases l with
      | update u =>
        simp only [UpdateLog.revTo_update] at hk
        simpa [List.filterMap_cons, UpdateLog.plain, hk] using ih
      | merge m =>
        rw [List.map_cons, List.filterMap_cons_none rfl]
        exact ih.cons k
  refine (Dict.keys_nodup_items o lookup).sublist (hsub _ ?_)
  rintro ⟨k, l⟩ hp
  exact hk k l (Dict.mem_items.mp hp)

/-- Dropping the first log that made a revision drops the only one. -/
theorem mem_eraseP_revTo {logs : List (Update Rev Call)} {r : Rev} {x : Update Rev Call}
    (hn : (logs.map Update.revTo).Nodup) :
    x ∈ logs.eraseP (fun x => some x.revTo = some r) ↔ x ∈ logs ∧ x.revTo ≠ r := by
  induction logs with
  | nil => simp
  | cons y ys ih =>
    rw [List.map_cons, List.nodup_cons] at hn
    have ih := ih hn.2
    by_cases hy : y.revTo = r
    · have hne : ∀ z ∈ ys, z.revTo ≠ r := by
        intro z hz e
        exact hn.1 (List.mem_map.mpr ⟨z, hz, e.trans hy.symm⟩)
      rw [List.eraseP_cons_of_pos (by simp [hy]), List.mem_cons]
      constructor
      · intro hx; exact ⟨Or.inr hx, hne x hx⟩
      · rintro ⟨rfl | hx, hxr⟩
        · exact absurd hy hxr
        · exact hx
    · rw [List.eraseP_cons_of_neg (by simp [hy]), List.mem_cons, ih, List.mem_cons]
      constructor
      · rintro (rfl | ⟨hx, hxr⟩)
        · exact ⟨Or.inl rfl, hy⟩
        · exact ⟨Or.inr hx, hxr⟩
      · rintro ⟨rfl | hx, hxr⟩
        · exact Or.inl rfl
        · exact Or.inr ⟨hx, hxr⟩

omit [DecidableEq Rev] in
theorem eraseP_nodup {logs : List (Update Rev Call)} {p : Update Rev Call → Bool}
    (hn : (logs.map Update.revTo).Nodup) : ((logs.eraseP p).map Update.revTo).Nodup :=
  hn.sublist (List.eraseP_sublist.map _)

theorem removeTargetRevN_none (n : Nat) (logs : List (Update Rev Call)) :
    removeTargetRevN n logs none = logs := by
  cases n with
  | zero => rfl
  | succ n =>
    have : logs.find? (fun x => some x.revTo = (none : Option Rev)) = none := by simp
    simp only [removeTargetRevN, this]

/-- Where no log that made `r` is left, and what the logs taken out started from is not left
either, none of the logs `r` is led to from is left. -/
theorem leads_gone {lookup : Lookup Rev Call} (hk : Keyed lookup) {logs : List (Update Rev Call)}
    {r : Rev} (hr : ∀ y ∈ logs, y.revTo ≠ r)
    (hgone : ∀ x, lookup.lookup x.revTo = some (.update x) → x ∉ logs → ∀ p, x.revFrom = some p →
      ∀ y ∈ logs, y.revTo ≠ p) {v : Rev} (h : Leads lookup r v) : ∀ y ∈ logs, y.revTo ≠ v := by
  induction h with
  | refl => exact hr
  | @tail b c _ hs ih =>
    obtain ⟨t, ht, hp⟩ := hs
    have hto : t.revTo = b := hk b _ ht
    exact hgone t (by rw [hto]; exact ht) (fun hmem => ih t hmem hto) c hp

/-- `remove_target_rev` started at `r` takes out the logs `r` is led to from. What an earlier
round took out started from `r` or from what is out already (`hgone`). -/
theorem mem_removeTargetRevN {lookup : Lookup Rev Call} (hk : Keyed lookup) :
    ∀ (n : Nat) (logs : List (Update Rev Call)) (r : Rev), logs.length ≤ n →
    (logs.map Update.revTo).Nodup →
    (∀ x ∈ logs, lookup.lookup x.revTo = some (.update x)) →
    (∀ x, lookup.lookup x.revTo = some (.update x) → x ∉ logs → ∀ p, x.revFrom = some p → p ≠ r →
      ∀ y ∈ logs, y.revTo ≠ p) →
    ∀ x, x ∈ removeTargetRevN n logs (some r) ↔ x ∈ logs ∧ ¬ Leads lookup r x.revTo
  | 0, logs, r, hlen, _, _, _, x => by
    have : logs = [] := List.eq_nil_of_length_eq_zero (Nat.le_zero.mp hlen)
    subst this
    simp [removeTargetRevN]
  | n + 1, logs, r, hlen, hn, hrec, hgone, x => by
    cases hf : logs.find? (fun x => some x.revTo = some r) with
    | none =>
      simp only [removeTargetRevN, hf]
      refine ⟨fun hx => ⟨hx, ?_⟩, And.left⟩
      intro hlead
      have hnot : ∀ y ∈ logs, y.revTo ≠ r := by
        intro y hy e
        exact List.find?_eq_none.mp hf y hy (by simp [e])
      refine leads_gone hk hnot ?_ hlead x hx rfl
      intro z hz hznot p hp
      by_cases he : p = r
      · exact he ▸ hnot
      · exact hgone z hz hznot p hp he
    | some t =>
      have hto : t.revTo = r := by simpa using List.find?_some hf
      have htm : t ∈ logs := List.mem_of_find?_eq_some hf
      have hlook : lookup.lookup r = some (.update t) := by rw [← hto]; exact hrec t htm
      simp only [removeTargetRevN, hf]
      have hmem := fun y => mem_eraseP_revTo (x := y) (r := r) hn
      cases hfrom : t.revFrom with
      | none =>
        rw [removeTargetRevN_none, hmem]
        refine and_congr_right fun _ => ⟨fun hne hlead => ?_, fun hnl e => hnl (e ▸ ReflTransGen.refl)⟩
        rcases ReflTransGen.cases_head hlead with e | ⟨p, ⟨t', ht', hp⟩, _⟩
        · exact hne e.symm
        · rw [hlook] at ht'; cases ht'; rw [hfrom] at hp; cases hp
      | some p =>
        have hlen' : (logs.eraseP (fun x => some x.revTo = some r)).length ≤ n := by
          have := List.length_eraseP_of_mem (p := fun x => some x.revTo = some r) htm (by simp [hto])
          omega
        -- the log taken out last started from `p`, those before it from what is out by now
        have hgone' : ∀ z, lookup.lookup z.revTo = some (.update z) →
            z ∉ logs.eraseP (fun x => some x.revTo = some r) → ∀ q, z.revFrom = some q → q ≠ p →
            ∀ y ∈ logs.eraseP (fun x => some x.revTo = some r), y.revTo ≠ q := by
          intro z hz hznot q hq hqp y hy
          obtain ⟨hy, hyr⟩ := (hmem y).mp hy
          by_cases hzr : z.revTo = r
          · rw [hzr, hlook] at hz
            cases hz
            rw [hfrom] at hq
            exact absurd (Option.some.inj hq).symm hqp
          · have hznot' : z ∉ logs := fun hzm => hznot ((hmem z).mpr ⟨hzm, hzr⟩)
            by_cases hqr : q = r
            · exact hqr ▸ hyr
            · exact hgone z hz hznot' q hq hqr y hy
        rw [mem_removeTargetRevN hk n _ p hlen' (eraseP_nodup hn)
          (fun y hy => hrec y ((hmem y).mp hy).1) hgone' x, hmem, and_assoc]
        refine and_congr_right fun _ => ⟨?_, ?_⟩
        · rintro ⟨hne, hnl⟩ hlead
          rcases ReflTransGen.cases_head hlead with e | ⟨q, ⟨t', ht', hq⟩, hrest⟩
          · exact hne e.symm
          · rw [hlook] at ht'; cases ht'; rw [hfrom] at hq; cases hq
            exact hnl hrest
        · intro hnl
          exact ⟨fun e => hnl (e ▸ ReflTransGen.refl),
            fun hlead => hnl (hlead.head ⟨t, hlook, hfrom⟩)⟩

theorem removeTargetRevN_sublist : ∀ (n : Nat) (logs : List (Update Rev Call)) (rev : Option Rev),
    (removeTargetRevN n logs rev).Sublist logs
  | 0, logs, _ => List.Sublist.refl logs
  | n + 1, logs, rev => by
    cases hf : logs.find? (fun x => some x.revTo = rev) with
    | none => simp only [removeTargetRevN, hf]; exact List.Sublist.refl logs
    | some t =>
      simp only [removeTargetRevN, hf]
      exact (removeTargetRevN_sublist n _ _).trans List.eraseP_sublist

theorem removeTargetRev_nodup (logs : List (Update Rev Call)) (r : Rev)
    (hn : (logs.map Update.revTo).Nodup) :
    ((removeTargetRev logs r).map Update.revTo).Nodup :=
  hn.sublist ((removeTargetRevN_sublist _ _ _).map _)

/-- The logs a merge from `r` hands on: the plain ones that do not lead to `r`. -/
theorem mem_mergeLogs {o : HashOrder Rev} {lookup : Lookup Rev Call} (hk : Keyed lookup) {r : Rev}
    {x : Update Rev Call} :
    x ∈ removeTargetRev (plainLogs o lookup) r ↔
      lookup.lookup x.revTo = some (.update x) ∧ ¬ Leads lookup r x.revTo := by
  rw [removeTargetRev, mem_removeTargetRevN hk _ _ r (Nat.le_refl _) (plainLogs_nodup hk)
    (fun y hy => (mem_plainLogs hk).mp hy)
    (fun y hy hnot => absurd ((mem_plainLogs hk).mpr hy) hnot), mem_plainLogs hk]

/-! ## Each update once -/

theorem partOf_of_anc {lookup : Lookup Rev Call} {v w u : Rev} (h : Anc (parent lookup) v w)
    (hu : PartOf lookup u w) : PartOf lookup u v := by
  induction h using ReflTransGen.head_induction_on with
  | refl => exact hu
  | head hs _ ih =>
    obtain ⟨l, hl, hp⟩ := Option.bind_eq_some_iff.mp hs
    exact .inherited hl hp ih

/-- An update that is part of a revision is on record. -/
theorem partOf_recorded {lookup : Lookup Rev Call} {rank : Rev → Nat}
    (hr : RankedLookup lookup rank) {u v : Rev} (h : PartOf lookup u v) :
    ∃ x, lookup.lookup u = some (.update x) := by
  induction h with
  | own hx => exact ⟨_, hx⟩
  | carried hm hk hto => exact hto ▸ hr.plain _ _ hm _ hk
  | inherited _ _ _ ih => exact ih

theorem leads_partOf {lookup : Lookup Rev Call} {r u : Rev} {x : Update Rev Call}
    (h : Leads lookup r u) (hu : lookup.lookup u = some (.update x)) : PartOf lookup u r :=
  partOf_of_anc (leads_anc h) (.own hu)

/-- Below no merge, what is part of `r` is what plain logs lead to. -/
theorem partOf_leads {lookup : Lookup Rev Call} {r u v : Rev} (h : PartOf lookup u v)
    (hv : Anc (parent lookup) r v)
    (hno : ∀ w m, Anc (parent lookup) r w → lookup.lookup w ≠ some (.merge m)) :
    Leads lookup r u := by
  induction h with
  | own _ => exact anc_leads hv hno
  | carried hm _ _ => exact absurd hm (hno _ _ hv)
  | inherited hl hp _ ih => exact ih (hv.tail (by simp [Step, parent, hl, hp]))

theorem eq_singleton {α : Type} {l : List α} {x : α} (hn : l.Nodup) (hx : x ∈ l)
    (hone : ∀ y ∈ l, y = x) : l = [x] := by
  match l, hx with
  | [y], _ => rw [hone y List.mem_cons_self]
  | y :: z :: rest, _ =>
    have h₁ := hone y List.mem_cons_self
    have h₂ := hone z (List.mem_cons_of_mem _ List.mem_cons_self)
    exact absurd (h₁.trans h₂.symm) (by simp at hn; exact hn.1.1)

section MergeLogs
variable {o : HashOrder Rev} {lookup : Lookup Rev Call} {rank : Rev → Nat} {leaves : List Rev}
  {r base : Rev}

/-- Whatever the base, as long as the ancestor is in its history, no update is missing. -/
theorem mergeLogs_complete (hr : RankedLookup lookup rank) (hb : Anc (parent lookup) base r) :
    ∀ leaf ∈ leaves, ∀ u, PartOf lookup u leaf → ¬ PartOf lookup u base →
      ∃ x, lookup.lookup u = some (.update x) ∧
        (removeTargetRev (plainLogs o lookup) r).filter (fun y => y.revTo = u) = [x] := by
  intro leaf _ u hu hnot
  obtain ⟨x, hx⟩ := partOf_recorded hr hu
  have hto : x.revTo = u := hr.key u _ hx
  have hmem : x ∈ removeTargetRev (plainLogs o lookup) r := by
    rw [mem_mergeLogs hr.key, hto]
    exact ⟨hx, fun hlead => hnot (partOf_of_anc hb (leads_partOf hlead hx))⟩
  refine ⟨x, hx, ?_⟩
  -- the list holds one log for each revision at most
  have hone : ∀ y ∈ (removeTargetRev (plainLogs o lookup) r).filter (fun y => y.revTo = u), y = x := by
    intro y hy
    obtain ⟨hy, hyu⟩ := List.mem_filter.mp hy
    have hyr := ((mem_mergeLogs hr.key).mp hy).1
    rw [of_decide_eq_true hyu, hx] at hyr
    cases hyr
    rfl
  have hnodup : (removeTargetRev (plainLogs o lookup) r).Nodup :=
    (removeTargetRev_nodup _ r (plainLogs_nodup hr.key)).of_map _
  exact eq_singleton (hnodup.filter _) (List.mem_filter.mpr ⟨hmem, by simp [hto]⟩) hone

/-- A merge in the history of the ancestor brings something in twice. -/
theorem merge_not_fresh (hr : RankedLookup lookup rank) (hb : Anc (parent lookup) base r)
    {v : Rev} {m : Merge Rev Call} (hv : Anc (parent lookup) r v)
    (hm : lookup.lookup v = some (.merge m)) :
    ∃ x ∈ removeTargetRev (plainLogs o lookup) r, PartOf lookup x.revTo base := by
  obtain ⟨w, m', hw, hlead⟩ := first_merge hv hm
  obtain ⟨k, hk⟩ := List.exists_mem_of_ne_nil _ m'.carries
  obtain ⟨x, hx⟩ := hr.plain w m' hw k hk
  have hto : x.revTo = k.revTo := hr.key _ _ hx
  refine ⟨x, ?_, ?_⟩
  · rw [mem_mergeLogs hr.key, hto]
    refine ⟨hx, fun hk' => ?_⟩
    -- a carried update was made before the merge, so plain logs do not lead to both
    rcases leads_total hlead hk' with h | h
    · have := leads_of_merge hw h
      rw [this, hw] at hx; cases hx
    · have h₁ := hr.carried w m' hw k hk
      have h₂ := anc_rank_le hr.parent (leads_anc h)
      omega
  · rw [hto]
    exact partOf_of_anc (anc_trans hb (leads_anc hlead)) (.carried hw hk rfl)

end MergeLogs

/-- What `_solve_merge` hands on, and from which ancestor it was computed. -/
theorem solveMerge_ok [DecidableEq Body] {o : HashOrder Rev} {db : Partition Rev Call Body}
    {doc root : Document Rev Body} {conflicts : List Rev} {logs : List (Update Rev Call)}
    (h : solveMerge o db doc conflicts = .ok (.performMerge root logs)) :
    ∃ r, LatestCommon (parent (historyOf db)) (doc.rev :: conflicts) r ∧
      logs = removeTargetRev (plainLogs o (historyOf db)) r ∧
      ((∃ body, db.serves r = some body ∧ root = ⟨r, body⟩) ∨ (db.serves r = none ∧ root = doc)) := by
  unfold solveMerge at h
  simp only [bind, Except.bind, pure, Except.pure] at h
  split at h
  · cases h
  · split at h
    · cases h
    · split at h
      · cases h
      · rename_i anc hanc
        split at h
        · cases h
        · rename_i r
          split at h
          · cases h
          · rename_i base hbase
            cases h
            refine ⟨r, findCommonAncestor_latest hanc, rfl, ?_⟩
            unfold baseDocument at hbase
            split at hbase
            · rename_i body hs
              exact Or.inl ⟨body, hs, (Except.ok.inj hbase).symm⟩
            · rename_i hs
              simp only [bind, Except.bind, pure, Except.pure] at hbase
              split at hbase
              · cases hbase
              · exact Or.inr ⟨hs, (Except.ok.inj hbase).symm⟩

/-- The merge applies each update once exactly when no merge is in the common history and the
ancestor is served, or the winner brings nothing of its own. -/
theorem solveMerge_appliesEachOnce_iff [DecidableEq Body] (o : HashOrder Rev)
    (db : Partition Rev Call Body) (doc root : Document Rev Body) (conflicts : List Rev)
    (logs : List (Update Rev Call)) (hacyclic : Acyclic db.logs)
    (h : solveMerge o db doc conflicts = .ok (.performMerge root logs)) :
    AppliesEachOnce (historyOf db) (doc.rev :: conflicts) root.rev logs ↔
      MergesOnce db doc.rev conflicts := by
  obtain ⟨rank, hr⟩ := acyclic_ranked hacyclic
  obtain ⟨r, hlatest, rfl, hroot⟩ := solveMerge_ok h
  have hwinner : Anc (parent (historyOf db)) doc.rev r := hlatest.1 doc.rev List.mem_cons_self
  have hbase : Anc (parent (historyOf db)) root.rev r := by
    rcases hroot with ⟨body, _, rfl⟩ | ⟨_, rfl⟩
    · exact anc_refl r
    · exact hwinner
  have hcommon : ∀ v, Anc (parent (historyOf db)) r v →
      Common (parent (historyOf db)) (doc.rev :: conflicts) v :=
    fun v hv leaf hl => anc_trans (hlatest.1 leaf hl) hv
  constructor
  · rintro ⟨_, hfresh⟩
    refine ⟨?_, ?_⟩
    · intro v m hv hm
      obtain ⟨x, hx, hpart⟩ := merge_not_fresh (o := o) hr hbase (hlatest.2 v hv) hm
      exact hfresh x hx hpart
    · rcases hroot with ⟨body, hs, _⟩ | ⟨_, rfl⟩
      · left
        intro r' hr'
        -- two latest common revisions are the same
        have he : r' = r := by
          have h₁ := anc_rank_le hr.parent (hr'.2 r hlatest.1)
          have h₂ := anc_rank_le hr.parent (hlatest.2 r' hr'.1)
          rcases anc_cases (hlatest.2 r' hr'.1) with e | ⟨p, hp, hpv⟩
          · exact e
          · have h₃ := anc_rank_le hr.parent hpv
            have h₄ := hr.parent r p hp
            omega
        rw [he, hs]; rfl
      · right
        intro u hu
        obtain ⟨x, hx⟩ := partOf_recorded hr hu
        have hto : x.revTo = u := hr.key u _ hx
        by_contra hnot
        refine hfresh x ((mem_mergeLogs hr.key).mpr ⟨by rw [hto]; exact hx, fun hlead => ?_⟩)
          (by rw [hto]; exact hu)
        rw [hto] at hlead
        exact hnot (hcommon u (leads_anc hlead))
  · rintro ⟨hno, hserved⟩
    refine ⟨mergeLogs_complete hr hbase, ?_⟩
    intro x hx hpart
    have hno' : ∀ w m, Anc (parent (historyOf db)) r w → (historyOf db).lookup w ≠ some (.merge m) :=
      fun w m hw => hno w m (hcommon w hw)
    have hnot := ((mem_mergeLogs hr.key).mp hx).2
    rcases hroot with ⟨body, _, rfl⟩ | ⟨hs, rfl⟩
    · exact hnot (partOf_leads hpart (anc_refl r) hno')
    · rcases hserved with hserved | hinside
      · have := hserved r hlatest
        rw [hs] at this; cases this
      · exact hnot (anc_leads (hlatest.2 _ (hinside _ hpart)) hno')

/-! A fork: revision 0 was updated to 1, the winner, and to 2, the conflict. -/

def forkLogs : List (Update Nat Nat) := [⟨some 0, 1, 1, 10⟩, ⟨some 0, 2, 2, 20⟩]

/-- The fork in a database that serves the leaves and holds `ancestor` for revision 0. -/
def fork (ancestor : Option Nat) : Partition Nat Nat Nat where
  logs := forkLogs.map .update
  serves := fun rev => if rev = 0 then ancestor else some rev

theorem fork_acyclic (ancestor : Option Nat) : Acyclic (fork ancestor).logs := by
  refine ⟨id, ?_⟩
  intro l hl
  simp [fork, forkLogs, expandMerges, UpdateLog.carried] at hl
  rcases hl with rfl | rfl <;> simp [UpdateLog.carried]

/-- With the ancestor at hand the two updates are applied to it, each once. -/
theorem fork_applies_once :
    AppliesEachOnce (historyOf (fork (some 0))) [1, 2] 0 forkLogs ↔ MergesOnce (fork (some 0)) 1 [2] :=
  solveMerge_appliesEachOnce_iff .stored (fork (some 0)) ⟨1, 1⟩ ⟨0, 0⟩ [2] forkLogs
    (fork_acyclic _) (by decide)

/-- With the ancestor gone the winner is the base, and its own update is applied to it again. -/
theorem fork_doubles_winner :
    Acyclic (fork none).logs ∧
    solveMerge .stored (fork none) ⟨1, 1⟩ [2] = .ok (.performMerge ⟨1, 1⟩ forkLogs) ∧
    ¬ AppliesEachOnce (historyOf (fork none)) [1, 2] 1 forkLogs := by
  refine ⟨fork_acyclic _, by decide, ?_⟩
  intro h
  refine h.fresh ⟨some 0, 1, 1, 10⟩ (by decide) (.own (x := ⟨some 0, 1, 1, 10⟩) ?_)
  decide

/-- The fork merged into revision 3, which was then updated to 4 and 5. -/
def mergedFork : Partition Nat Nat Nat where
  logs := [.merge ⟨some 1, 3, 3, forkLogs, by decide⟩, .update ⟨some 3, 4, 4, 30⟩,
    .update ⟨some 3, 5, 5, 40⟩]
  serves := some

-- Revision 3 holds the merged updates, and both are applied to it again.
example : solveMerge .stored mergedFork ⟨4, 4⟩ [5] =
    .ok (.performMerge ⟨3, 3⟩ (forkLogs ++ [⟨some 3, 4, 4, 30⟩, ⟨some 3, 5, 5, 40⟩])) := by decide

end Feat.Database
