import Mathlib.Data.List.Sort
import Feat.Database.Migration

/- Plans of migrations are chains, the shortest there are, and the hooks of a plan are run
   in its order.

   The planner tries the ways to divide the range between the two versions, fewest
   divisions first. So it finds chains that climb: what a migration does to lower a
   version is never made use of (`planMigration_ok`, `planMigration_error`). A chain that
   climbs divides the range, as its versions increase (`climbing_combination`).

   The actions that are recorded are kept in the snapshot that the hooks are given. They
   are there in the end as far as the hooks that run later leave them in it (`Keeps`). -/
namespace Feat.Database
open Hash

variable {r : MigrationRegistry} {typeName : String} {s t target : ℤ} {chain plan : List Migration}

/-! ## Chains -/

def MigrationRegistry.Registered (r : MigrationRegistry) (m : Migration) : Prop :=
  r.lookup m.key = some m

instance (r : MigrationRegistry) (m : Migration) : Decidable (r.Registered m) :=
  inferInstanceAs (Decidable (_ = _))

/-- Registered migrations lead from one version to another. -/
def ChainsTo (r : MigrationRegistry) (typeName : String) : ℤ → List Migration → ℤ → Prop
  | s, [], t => s = t
  | s, m :: chain, t =>
    r.Registered m ∧ m.typeName = typeName ∧ m.sourceVer = s ∧
      ChainsTo r typeName m.targetVer chain t

instance decidableChainsTo : ∀ s chain t, Decidable (ChainsTo r typeName s chain t)
  | s, [], t => inferInstanceAs (Decidable (s = t))
  | _, m :: chain, t =>
    have := decidableChainsTo m.targetVer chain t
    inferInstanceAs (Decidable (_ ∧ _ ∧ _ ∧ ChainsTo r typeName m.targetVer chain t))

/-- Each migration leads to a higher version. -/
def Climbs (chain : List Migration) : Prop := ∀ m ∈ chain, m.sourceVer < m.targetVer

instance (chain : List Migration) : Decidable (Climbs chain) :=
  inferInstanceAs (Decidable (∀ m ∈ chain, _))

theorem lookup_eq_some {m : Migration} :
    r.lookup (typeName, s, t) = some m ↔
      r.Registered m ∧ m.typeName = typeName ∧ m.sourceVer = s ∧ m.targetVer = t := by
  constructor
  · intro h
    have hkey : m.key = (typeName, s, t) := r.keyed _ _ h
    refine ⟨?_, ?_⟩
    · rw [MigrationRegistry.Registered, hkey]
      exact h
    · simpa [Migration.key] using hkey
  · rintro ⟨h, rfl, rfl, rfl⟩
    exact h

/-- The versions of a chain that climbs increase, up to the last. -/
theorem climbing_versions (hleads : ChainsTo r typeName s chain t) (hclimbs : Climbs chain) :
    (chain.map Migration.targetVer).Pairwise (· < ·) ∧
      (∀ v ∈ chain.map Migration.targetVer, s < v ∧ v ≤ t) ∧ s ≤ t := by
  induction chain generalizing s with
  | nil =>
    have hst : s = t := hleads
    simp [hst]
  | cons m chain ih =>
    obtain ⟨-, -, hs, hrest⟩ := hleads
    have hup : m.sourceVer < m.targetVer := hclimbs m (List.mem_cons_self)
    obtain ⟨hsorted, hbounds, hle⟩ := ih hrest fun m' h => hclimbs m' (List.mem_cons_of_mem _ h)
    refine ⟨?_, fun v hv => ?_, by omega⟩
    · rw [List.map_cons, List.pairwise_cons]
      exact ⟨fun v hv => (hbounds v hv).1, hsorted⟩
    · rw [List.map_cons, List.mem_cons] at hv
      obtain rfl | hv := hv
      · omega
      · have := hbounds v hv
        omega

/-- A chain leads to its last version. -/
theorem versions_of_chain (hleads : ChainsTo r typeName s chain t) (hne : chain ≠ []) :
    ∃ division, chain.map Migration.targetVer = division ++ [t] := by
  induction chain generalizing s with
  | nil => exact absurd rfl hne
  | cons m chain ih =>
    obtain ⟨-, -, -, hrest⟩ := hleads
    cases chain with
    | nil =>
      have ht : m.targetVer = t := hrest
      exact ⟨[], by simp [ht]⟩
    | cons m' chain =>
      obtain ⟨division, hdivision⟩ := ih hrest (by simp)
      exact ⟨m.targetVer :: division, by rw [List.map_cons, hdivision, List.cons_append]⟩

/-- Migrations between versions that increase climb. -/
theorem climbs_of_sorted (hleads : ChainsTo r typeName s chain t)
    (hsorted : (s :: chain.map Migration.targetVer).Pairwise (· < ·)) : Climbs chain := by
  induction chain generalizing s with
  | nil => exact fun m hm => nomatch hm
  | cons m chain ih =>
    obtain ⟨-, -, hs, hrest⟩ := hleads
    obtain ⟨hup, hlater⟩ := List.pairwise_cons.mp hsorted
    intro m' hm'
    obtain rfl | hm' := List.mem_cons.mp hm'
    · rw [hs]
      exact hup _ List.mem_cons_self
    · exact ih hrest hlater m' hm'

/-! ## Divisions of the range -/

theorem mem_combinations {α : Type} {l c : List α} {n : Nat} :
    c ∈ combinations l n ↔ c.Sublist l ∧ c.length = n := by
  induction l generalizing n c with
  | nil =>
    cases n with
    | zero => simp [combinations]
    | succ n =>
      refine iff_of_false (by simp [combinations]) ?_
      rintro ⟨hsub, hlen⟩
      rw [List.sublist_nil.mp hsub] at hlen
      cases hlen
  | cons a l ih =>
    cases n with
    | zero =>
      simp only [combinations, List.mem_singleton, List.length_eq_zero_iff]
      exact ⟨fun h => ⟨h ▸ List.nil_sublist _, h⟩, fun h => h.2⟩
    | succ n =>
      simp only [combinations, List.mem_append, List.mem_map, ih]
      constructor
      · rintro (⟨c, ⟨hsub, hlen⟩, rfl⟩ | ⟨hsub, hlen⟩)
        · exact ⟨hsub.cons_cons a, by simp [hlen]⟩
        · exact ⟨hsub.cons a, hlen⟩
      · rintro ⟨hsub, hlen⟩
        cases hsub with
        | cons _ hsub => exact .inr ⟨hsub, hlen⟩
        | cons_cons _ hsub => exact .inl ⟨_, ⟨hsub, by simpa using hlen⟩, rfl⟩

theorem pairwise_range (s t : ℤ) : (Int.range s t).Pairwise (· < ·) := by
  unfold Int.range
  rw [List.pairwise_map]
  exact List.pairwise_lt_range.imp fun h => by omega

/-- The divisions are the increasing lists of versions that lie between. -/
theorem sublist_range {division : List ℤ} :
    division.Sublist (Int.range (s + 1) t) ↔
      division.Pairwise (· < ·) ∧ ∀ v ∈ division, s < v ∧ v < t := by
  constructor
  · intro h
    refine ⟨(pairwise_range _ _).sublist h, fun v hv => ?_⟩
    have := Int.mem_range_iff.mp (h.subset hv)
    omega
  · rintro ⟨hsorted, hbounds⟩
    have hnodup : division.Nodup := hsorted.imp fun h => by omega
    refine List.sublist_of_subperm_of_pairwise (List.subperm_of_subset hnodup fun v hv => ?_)
      hsorted (pairwise_range _ _)
    have := hbounds v hv
    exact Int.mem_range_iff.mpr (by omega)

/-- What is found through a division is the chain with these versions. -/
theorem migrationsThrough_eq_some {division : List ℤ} {before : List Migration} :
    migrationsThrough r typeName target s before division = some plan ↔
      ∃ chain, plan = before ++ chain ∧ ChainsTo r typeName s chain target ∧
        chain.map Migration.targetVer = division ++ [target] := by
  induction division generalizing s before with
  | nil =>
    rw [migrationsThrough]
    constructor
    · intro h
      split at h
      · cases h
      · rename_i m hm
        obtain ⟨hreg, hname, hs, ht⟩ := lookup_eq_some.mp hm
        exact ⟨[m], (Option.some.inj h).symm, ⟨hreg, hname, hs, ht⟩, by simp [ht]⟩
    · rintro ⟨chain, rfl, hleads, hversions⟩
      obtain ⟨m, rfl, ht⟩ := List.map_eq_singleton_iff.mp hversions
      obtain ⟨hreg, hname, hs, -⟩ := hleads
      rw [lookup_eq_some.mpr ⟨hreg, hname, hs, ht⟩]
  | cons index division ih =>
    rw [migrationsThrough]
    constructor
    · intro h
      split at h
      · cases h
      · rename_i m hm
        obtain ⟨hreg, hname, hs, ht⟩ := lookup_eq_some.mp hm
        obtain ⟨chain, rfl, hleads, hversions⟩ := ih.mp h
        refine ⟨m :: chain, by simp, ⟨hreg, hname, hs, ?_⟩, by simp [ht, hversions]⟩
        rw [ht]
        exact hleads
    · rintro ⟨chain, rfl, hleads, hversions⟩
      obtain ⟨m, chain, rfl, ht, hversions⟩ := List.map_eq_cons_iff.mp hversions
      obtain ⟨hreg, hname, hs, hrest⟩ := hleads
      rw [lookup_eq_some.mpr ⟨hreg, hname, hs, ht⟩]
      dsimp only
      refine ih.mpr ⟨chain, by simp, ?_, hversions⟩
      rw [← ht]
      exact hrest

/-- The chains that climb are those with the versions of some division. -/
theorem climbing_combination (hst : s < t) {n : Nat} :
    (∃ division ∈ combinations (Int.range (s + 1) t) n,
        migrationsThrough r typeName t s [] division = some chain) ↔
      ChainsTo r typeName s chain t ∧ Climbs chain ∧ chain.length = n + 1 := by
  simp only [mem_combinations, sublist_range, migrationsThrough_eq_some, List.nil_append]
  constructor
  · rintro ⟨division, ⟨⟨hsorted, hbounds⟩, hlen⟩, _, rfl, hleads, hversions⟩
    refine ⟨hleads, climbs_of_sorted hleads ?_, ?_⟩
    · rw [hversions, List.pairwise_cons, List.pairwise_append]
      refine ⟨fun v hv => ?_, hsorted, List.pairwise_singleton _ _, fun v hv w hw => ?_⟩
      · obtain hv | hv := List.mem_append.mp hv
        · exact (hbounds v hv).1
        · rw [List.mem_singleton.mp hv]
          exact hst
      · rw [List.mem_singleton.mp hw]
        exact (hbounds v hv).2
    · rw [← List.length_map Migration.targetVer, hversions, List.length_append, hlen]
      rfl
  · rintro ⟨hleads, hclimbs, hlen⟩
    have hne : chain ≠ [] := List.ne_nil_of_length_eq_add_one hlen
    obtain ⟨division, hdivision⟩ := versions_of_chain hleads hne
    obtain ⟨hsorted, hbounds, -⟩ := climbing_versions hleads hclimbs
    rw [hdivision] at hsorted hbounds
    obtain ⟨hsorted, -, hlast⟩ := List.pairwise_append.mp hsorted
    refine ⟨division, ⟨⟨hsorted, fun v hv => ⟨?_, ?_⟩⟩, ?_⟩, chain, rfl, hleads, hdivision⟩
    · exact (hbounds v (List.mem_append_left _ hv)).1
    · exact hlast v hv t (List.mem_singleton_self t)
    · have := congrArg List.length hdivision
      rw [List.length_map, List.length_append, List.length_singleton] at this
      omega

/-! ## Plans -/

/-- The numbers of divisions that are tried are enough for all chains. -/
theorem length_climbing (hst : s < t) {n : Nat} (hleads : ChainsTo r typeName s chain t)
    (hclimbs : Climbs chain) (hlen : chain.length = n + 1) : n < (t - s).toNat := by
  obtain ⟨division, hdivision, -⟩ := (climbing_combination hst).mpr ⟨hleads, hclimbs, hlen⟩
  obtain ⟨hsub, rfl⟩ := mem_combinations.mp hdivision
  have hle := hsub.length_le
  rw [Int.range, List.length_map, List.length_range] at hle
  omega

theorem planMigration_ok (hst : s < t) (h : planMigration r typeName s t = .ok plan) :
    ChainsTo r typeName s plan t ∧ Climbs plan ∧
      ∀ chain, ChainsTo r typeName s chain t → Climbs chain → plan.length ≤ chain.length := by
  unfold planMigration at h
  dsimp only at h
  split at h
  · rename_i migrations hfound
    obtain rfl := Except.ok.inj h
    obtain ⟨before, n, after, hrange, hn, hnone⟩ := List.findSome?_eq_some_iff.mp hfound
    obtain ⟨division, hdivision, hthrough⟩ := List.exists_of_findSome?_eq_some hn
    obtain ⟨hleads, hclimbs, hlen⟩ := (climbing_combination hst).mp ⟨division, hdivision, hthrough⟩
    refine ⟨hleads, hclimbs, fun chain hchain hup => ?_⟩
    by_contra hshorter
    cases hlength : chain.length with
    | zero =>
      rw [List.length_eq_zero_iff] at hlength
      subst hlength
      exact absurd hchain hst.ne
    | succ k =>
      -- fewer divisions were tried before
      have hk : k ∈ before := by
        have hkn : k < n := by omega
        have hbefore : before = (List.range (t - s).toNat).take before.length := by
          rw [hrange, List.take_left]
        have hat : n = before.length := by
          have hget : (List.range (t - s).toNat)[before.length]? = some n := by
            rw [hrange]
            simp
          obtain ⟨_, hget⟩ := List.getElem?_eq_some_iff.mp hget
          simpa using hget.symm
        rw [hbefore, List.take_range, List.mem_range]
        have := length_climbing hst hchain hup hlength
        omega
      obtain ⟨division', hdivision', hthrough'⟩ :=
        (climbing_combination hst).mpr ⟨hchain, hup, hlength⟩
      have := List.findSome?_eq_none_iff.mp (hnone k hk) division' hdivision'
      rw [hthrough'] at this
      cases this
  · cases h

theorem planMigration_error {e : NotMigratable} (hst : s < t) :
    planMigration r typeName s t = .error e ↔
      e = ⟨typeName, s, t⟩ ∧ ¬ ∃ chain, ChainsTo r typeName s chain t ∧ Climbs chain := by
  unfold planMigration
  dsimp only
  split
  · rename_i migrations hfound
    obtain ⟨n, -, hn⟩ := List.exists_of_findSome?_eq_some hfound
    obtain ⟨division, hdivision, hthrough⟩ := List.exists_of_findSome?_eq_some hn
    obtain ⟨hleads, hclimbs, -⟩ := (climbing_combination hst).mp ⟨division, hdivision, hthrough⟩
    exact ⟨fun h => (nomatch h), fun h => absurd ⟨migrations, hleads, hclimbs⟩ h.2⟩
  · rename_i hnone
    refine ⟨fun h => ⟨(Except.error.inj h).symm, ?_⟩, fun h => by rw [h.1]⟩
    rintro ⟨chain, hleads, hclimbs⟩
    cases hlength : chain.length with
    | zero =>
      rw [List.length_eq_zero_iff] at hlength
      subst hlength
      exact absurd hleads hst.ne
    | succ n =>
      obtain ⟨division, hdivision, hthrough⟩ :=
        (climbing_combination hst).mpr ⟨hleads, hclimbs, hlength⟩
      have hn := List.mem_range.mpr (length_climbing hst hleads hclimbs hlength)
      have := List.findSome?_eq_none_iff.mp (List.findSome?_eq_none_iff.mp hnone n hn)
        division hdivision
      rw [hthrough] at this
      cases this

/-! ## The hooks -/

section Hooks
variable {σ χ : Type} {hooks : Hooks σ χ} {snapshot final : VersionedSnapshot σ χ}
  {calls : List (HookCall σ χ)}

/-- The snapshot and the context that a hook returned. -/
def HookResult.unpack : HookResult σ χ → Option (VersionedSnapshot σ χ × Option χ)
  | .pair snapshot context => some (snapshot, context)
  | .dict snapshot => some (snapshot, none)
  | .strange => none
  | .raised _ => none

/-- The actions that a snapshot holds. -/
def VersionedSnapshot.actions (snapshot : VersionedSnapshot σ χ) : List (Migration × χ) :=
  snapshot.asynchronousActions.getD []

/-- What is recorded for a hook that was called. -/
def HookCall.action (call : HookCall σ χ) : Option (Migration × χ) :=
  call.result.unpack.bind fun res => res.2.map fun context => (call.step, context)

/-- The hook leaves the actions in the snapshot that were recorded before. -/
def HookCall.Keeps (call : HookCall σ χ) : Prop :=
  ∀ res ∈ call.result.unpack, res.1.actions = call.given.actions

/-- The hooks of a plan were called, and led to a snapshot. -/
structure Adapted (hooks : Hooks σ χ) (plan : List Migration) (snapshot : VersionedSnapshot σ χ)
    (calls : List (HookCall σ χ)) (final : VersionedSnapshot σ χ) : Prop where
  in_order : calls.map HookCall.step = plan
  called : ∀ call ∈ calls, call.result = hooks call.step call.given
  recorded : ∀ before call after, calls = before ++ call :: after →
    (∀ later ∈ after, HookCall.Keeps later) → ∀ action ∈ call.action, action ∈ final.actions
  exactly : (∀ call ∈ calls, call.Keeps) →
    final.actions = snapshot.actions ++ calls.filterMap HookCall.action

/-- A hook raised or returned something strange, and none was called after it. -/
structure Abandoned (hooks : Hooks σ χ) (plan : List Migration)
    (calls : List (HookCall σ χ)) : Prop where
  in_order : calls.map HookCall.step <+: plan
  called : ∀ call ∈ calls, call.result = hooks call.step call.given
  failed : ∃ before call, calls = before ++ [call] ∧ call.result.unpack = none

theorem actions_addAction (step : Migration) (context : Option χ) :
    (snapshot.addAction step context).actions =
      snapshot.actions ++ (context.map fun context => (step, context)).toList := by
  cases context with
  | none => simp [VersionedSnapshot.addAction]
  | some context => simp [VersionedSnapshot.addAction, VersionedSnapshot.actions]

/-- What a hook returns goes to the next one. -/
theorem runHooks_cons {step : Migration} {plan : List Migration}
    {res : VersionedSnapshot σ χ × Option χ} (h : (hooks step snapshot).unpack = some res) :
    runHooks hooks (step :: plan) snapshot =
      (⟨step, snapshot, hooks step snapshot⟩ ::
          (runHooks hooks plan (res.1.addAction step res.2)).1,
        (runHooks hooks plan (res.1.addAction step res.2)).2) := by
  rw [runHooks]
  cases hres : hooks step snapshot with
  | pair returned context =>
    rw [hres] at h
    obtain rfl := Option.some.inj h
    rfl
  | dict returned =>
    rw [hres] at h
    obtain rfl := Option.some.inj h
    rfl
  | strange => rw [hres] at h; cases h
  | raised error => rw [hres] at h; cases h

/-- A hook that returns nothing of use is the last that is called. -/
theorem runHooks_cons_none {step : Migration} (plan : List Migration)
    (h : (hooks step snapshot).unpack = none) :
    ∃ error, runHooks hooks (step :: plan) snapshot =
      ([⟨step, snapshot, hooks step snapshot⟩], .error error) := by
  rw [runHooks]
  cases hres : hooks step snapshot with
  | pair returned context => rw [hres] at h; cases h
  | dict returned => rw [hres] at h; cases h
  | strange => exact ⟨_, rfl⟩
  | raised error => exact ⟨_, rfl⟩

theorem runHooks_ok (plan : List Migration) (snapshot : VersionedSnapshot σ χ)
    (h : (runHooks hooks plan snapshot).2 = .ok final) :
    Adapted hooks plan snapshot (runHooks hooks plan snapshot).1 final := by
  induction plan generalizing snapshot with
  | nil =>
    obtain rfl := Except.ok.inj h
    refine ⟨rfl, fun call hc => (nomatch hc), fun before call after he => ?_, fun _ => ?_⟩
    · simp [runHooks] at he
    · exact (List.append_nil _).symm
  | cons step plan ih =>
    cases hres : (hooks step snapshot).unpack with
    | none =>
      obtain ⟨error, herror⟩ := runHooks_cons_none plan hres
      rw [herror] at h
      cases h
    | some res =>
      rw [runHooks_cons hres] at h ⊢
      have hrest := ih _ h
      have haction : (HookCall.mk step snapshot (hooks step snapshot)).action =
          res.2.map fun context => (step, context) := by
        rw [HookCall.action, hres]
        rfl
      refine ⟨by simp [hrest.in_order], fun call hc => ?_, fun before call after he hkeep => ?_,
        fun hkeep => ?_⟩
      · obtain rfl | hc := List.mem_cons.mp hc
        · rfl
        · exact hrest.called call hc
      · obtain ⟨rfl, he⟩ | ⟨before, rfl, hsplit⟩ := List.cons_eq_append_iff.mp he
        · -- all that follow keep what this hook has recorded
          obtain ⟨rfl, rfl⟩ := List.cons.inj he
          intro action haction'
          rw [hrest.exactly hkeep, actions_addAction, ← haction]
          simp [Option.mem_def.mp haction']
        · exact hrest.recorded before call after hsplit hkeep
      · have hfirst := hkeep _ List.mem_cons_self res hres
        rw [hrest.exactly fun call hc => hkeep call (List.mem_cons_of_mem _ hc),
          actions_addAction, hfirst, List.filterMap_cons, haction]
        cases res.2 <;> simp

theorem runHooks_error {error : AdaptError} (plan : List Migration)
    (snapshot : VersionedSnapshot σ χ) (h : (runHooks hooks plan snapshot).2 = .error error) :
    Abandoned hooks plan (runHooks hooks plan snapshot).1 := by
  induction plan generalizing snapshot with
  | nil => cases h
  | cons step plan ih =>
    cases hres : (hooks step snapshot).unpack with
    | none =>
      obtain ⟨error', herror⟩ := runHooks_cons_none plan hres
      rw [herror]
      refine ⟨by simp, fun call hc => ?_, [], _, rfl, hres⟩
      rw [List.mem_singleton.mp hc]
    | some res =>
      rw [runHooks_cons hres] at h ⊢
      have hrest := ih _ h
      refine ⟨?_, fun call hc => ?_, ?_⟩
      · exact List.cons_prefix_cons.mpr ⟨rfl, hrest.in_order⟩
      · obtain rfl | hc := List.mem_cons.mp hc
        · rfl
        · exact hrest.called call hc
      · obtain ⟨before, call, he, hfailed⟩ := hrest.failed
        exact ⟨_ :: before, call, by rw [he, List.cons_append], hfailed⟩

/-- A plan is a shortest chain of those that climb, and there is a plan if there is such a
    chain. Its hooks are run in the order of the chain, and what they ask for is recorded. -/
theorem plan_shortest (hooks : Hooks σ χ) (r : MigrationRegistry) (typeName : String)
    (snapshot : VersionedSnapshot σ χ) {source target : ℤ} (hst : source < target) :
    (∀ plan, planMigration r typeName source target = .ok plan →
      ChainsTo r typeName source plan target ∧ Climbs plan ∧
        (∀ chain, ChainsTo r typeName source chain target → Climbs chain →
          plan.length ≤ chain.length) ∧
        (∀ calls final, adaptVersion hooks r typeName snapshot source target = (calls, .ok final) →
          Adapted hooks plan snapshot calls final) ∧
        (∀ calls error,
          adaptVersion hooks r typeName snapshot source target = (calls, .error error) →
          Abandoned hooks plan calls)) ∧
      (planMigration r typeName source target = .error ⟨typeName, source, target⟩ ↔
        ¬ ∃ chain, ChainsTo r typeName source chain target ∧ Climbs chain) := by
  refine ⟨fun plan hplan => ?_, ?_⟩
  · obtain ⟨hleads, hclimbs, hshortest⟩ := planMigration_ok hst hplan
    have hadapt : adaptVersion hooks r typeName snapshot source target =
        runHooks hooks plan snapshot := by
      rw [adaptVersion, hplan]
    refine ⟨hleads, hclimbs, hshortest, fun calls final hfinal => ?_, fun calls error herror => ?_⟩
    · rw [hadapt] at hfinal
      have hok := runHooks_ok plan snapshot (congrArg Prod.snd hfinal)
      rw [hfinal] at hok
      exact hok
    · rw [hadapt] at herror
      have hfailed := runHooks_error plan snapshot (congrArg Prod.snd herror)
      rw [herror] at hfailed
      exact hfailed
  · rw [planMigration_error hst]
    exact and_iff_right rfl

end Hooks

/-! ## Runs -/

/-- The migrations between these versions are registered. -/
def registryOf (typeName : String) (versions : List (ℤ × ℤ)) : MigrationRegistry :=
  versions.foldl (fun r p => r.register ⟨typeName, p.1, p.2, 0⟩) .new

/-- The shortest way leaves out a migration that it could make use of. -/
theorem plan_shortest_through : planMigration
      (registryOf "doc" [(1, 3), (2, 3), (3, 4), (3, 5), (5, 6)]) "doc" 1 6 =
        .ok [⟨"doc", 1, 3, 0⟩, ⟨"doc", 3, 5, 0⟩, ⟨"doc", 5, 6, 0⟩] ∧
      ∀ chain,
        ChainsTo (registryOf "doc" [(1, 3), (2, 3), (3, 4), (3, 5), (5, 6)]) "doc" 1 chain 6 →
        Climbs chain → 3 ≤ chain.length := by
  have hplan : planMigration (registryOf "doc" [(1, 3), (2, 3), (3, 4), (3, 5), (5, 6)]) "doc" 1 6 =
      .ok [⟨"doc", 1, 3, 0⟩, ⟨"doc", 3, 5, 0⟩, ⟨"doc", 5, 6, 0⟩] := by
    decide +kernel
  have hshortest := (plan_shortest (fun _ snapshot => .dict snapshot) _ "doc"
    (⟨(), none, false⟩ : VersionedSnapshot Unit Unit) (by decide : (1 : ℤ) < 6)).1 _ hplan
  exact ⟨hplan, hshortest.2.2.1⟩

/-- A chain that goes down is not found. Of two hooks, the second makes a new snapshot: what
    was recorded for the first is lost. -/
theorem descent_unused_and_action_lost :
    (∃ chain, ChainsTo (registryOf "doc" [(1, 4), (4, 3)]) "doc" 1 chain 3 ∧
      planMigration (registryOf "doc" [(1, 4), (4, 3)]) "doc" 1 3 = .error ⟨"doc", 1, 3⟩) ∧
    (∃ (hooks : Hooks Unit Unit) (call : HookCall Unit Unit)
        (calls : List (HookCall Unit Unit)) (final : VersionedSnapshot Unit Unit),
      adaptVersion hooks (registryOf "doc" [(1, 2), (2, 3)]) "doc" ⟨(), none, false⟩ 1 3 =
        (call :: calls, .ok final) ∧
      call.action = some (⟨"doc", 1, 2, 0⟩, ()) ∧ final.actions = []) := by
  refine ⟨⟨[⟨"doc", 1, 4, 0⟩, ⟨"doc", 4, 3, 0⟩], by decide, by decide +kernel⟩, ?_⟩
  have hplan : planMigration (registryOf "doc" [(1, 2), (2, 3)]) "doc" 1 3 =
      .ok [⟨"doc", 1, 2, 0⟩, ⟨"doc", 2, 3, 0⟩] := by
    decide +kernel
  refine ⟨fun m snapshot =>
    if m.sourceVer = 1 then .pair snapshot (some ()) else .dict ⟨(), none, false⟩, ?_⟩
  rw [adaptVersion, hplan]
  exact ⟨_, _, _, rfl, rfl, rfl⟩

end Feat.Database
