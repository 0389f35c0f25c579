import Mathlib.Data.Int.Range
import Feat.Lib.Hash

/- Migrations of versioned documents (`feat.database.migration`), and the planner that
   chains them (`MetaVersionedDocument.plan_migration` and `adapt_version`).

   A migration is registered under its own type name and versions, and the registry
   keeps the last one that was registered for them (`Registry.keyed`).

   What a snapshot holds besides the fields that the adaptation itself writes is any
   content. A hook is any function of the snapshot: no migration occurs twice in a plan,
   so nothing that a hook remembers is asked for again. -/
namespace Feat.Database
open Hash

structure Migration where
  typeName : String
  sourceVer : ℤ
  targetVer : ℤ
  number : Nat
  deriving DecidableEq

/-- What a migration is registered under. -/
abbrev MigrationKey : Type := String × ℤ × ℤ

def Migration.key (m : Migration) : MigrationKey := (m.typeName, m.sourceVer, m.targetVer)

/-- `NotMigratable`. -/
structure NotMigratable where
  typeName : String
  source : ℤ
  target : ℤ
  deriving DecidableEq

/-! ## The registry -/

structure MigrationRegistry where
  data : Dict MigrationKey Migration
  keyed : ∀ key m, data.lookup key = some m → m.key = key

namespace MigrationRegistry

def new : MigrationRegistry := ⟨∅, fun key m h => by rw [AList.lookup_empty] at h; cases h⟩

/-- `register`. -/
def register (r : MigrationRegistry) (m : Migration) : MigrationRegistry where
  data := r.data.insert m.key m
  keyed key m' h := by
    by_cases hkey : key = m.key
    · rw [hkey, AList.lookup_insert] at h
      rw [hkey, Option.some.inj h]
    · rw [AList.lookup_insert_ne hkey] at h
      exact r.keyed key m' h

/-- `delete`. -/
def delete (r : MigrationRegistry) (key : MigrationKey) : MigrationRegistry where
  data := r.data.erase key
  keyed key' m h := by
    by_cases hkey : key' = key
    · rw [hkey, AList.lookup_erase] at h
      cases h
    · rw [AList.lookup_erase_ne hkey] at h
      exact r.keyed key' m h

/-- `lookup`. -/
def lookup (r : MigrationRegistry) (key : MigrationKey) : Option Migration := r.data.lookup key

end MigrationRegistry

/-! ## The planner -/

/-- `itertools.combinations`. -/
def combinations {α : Type} : List α → Nat → List (List α)
  | _, 0 => [[]]
  | [], _ + 1 => []
  | a :: l, n + 1 => (combinations l n).map (a :: ·) ++ combinations l (n + 1)

/-- The inner loop of `plan_migration`, with its else-branch. -/
def migrationsThrough (r : MigrationRegistry) (typeName : String) (target : ℤ) :
    ℤ → List Migration → List ℤ → Option (List Migration)
  | s, migrations, [] =>
    match r.lookup (typeName, s, target) with
    | none => none
    | some m => some (migrations ++ [m])
  | s, migrations, index :: division =>
    match r.lookup (typeName, s, index) with
    | none => none
    | some m => migrationsThrough r typeName target index (migrations ++ [m]) division

/-- `plan_migration`. -/
def planMigration (r : MigrationRegistry) (typeName : String) (source target : ℤ) :
    Except NotMigratable (List Migration) :=
  let middle := Int.range (source + 1) target
  let plan := (List.range (target - source).toNat).findSome? fun nDivisions =>
    (combinations middle nDivisions).findSome? fun division =>
      migrationsThrough r typeName target source [] division
  match plan with
  | some migrations => .ok migrations
  | none => .error ⟨typeName, source, target⟩

/-! ## The adaptation -/

variable {σ χ : Type}

/-- A snapshot: `_asynchronous_actions` and `_has_migrated`, and everything else. -/
structure VersionedSnapshot (σ χ : Type) where
  content : σ
  asynchronousActions : Option (List (Migration × χ))
  hasMigrated : Bool
  deriving DecidableEq

/-- What a hook returns or raises: `strange` is anything but a dictionary or a pair. -/
inductive HookResult (σ χ : Type) where
  | dict (snapshot : VersionedSnapshot σ χ)
  | pair (snapshot : VersionedSnapshot σ χ) (context : Option χ)
  | strange
  | raised (error : String)

/-- What `adapt_version` raises. -/
inductive AdaptError where
  | notMigratable (error : NotMigratable)
  | valueError (step : Migration)
  | hookError (step : Migration) (error : String)
  deriving DecidableEq

/-- `synchronous_hook` of each migration. -/
abbrev Hooks (σ χ : Type) : Type := Migration → VersionedSnapshot σ χ → HookResult σ χ

/-- A hook that was called. -/
structure HookCall (σ χ : Type) where
  step : Migration
  given : VersionedSnapshot σ χ
  result : HookResult σ χ

/-- `_asynchronous_actions` when a hook has returned the context. -/
def VersionedSnapshot.addAction (snapshot : VersionedSnapshot σ χ) (step : Migration) :
    Option χ → VersionedSnapshot σ χ
  | none => snapshot
  | some context =>
    { snapshot with
      asynchronousActions := some (snapshot.asynchronousActions.getD [] ++ [(step, context)]) }

/-- The loop of `adapt_version`, with the hooks that it calls. -/
def runHooks (hooks : Hooks σ χ) :
    List Migration → VersionedSnapshot σ χ →
      List (HookCall σ χ) × Except AdaptError (VersionedSnapshot σ χ)
  | [], snapshot => ([], .ok { snapshot with hasMigrated := true })
  | step :: plan, snapshot =>
    let res := hooks step snapshot
    let call : HookCall σ χ := ⟨step, snapshot, res⟩
    match res with
    | .pair snapshot context =>
      let (calls, adapted) := runHooks hooks plan (snapshot.addAction step context)
      (call :: calls, adapted)
    | .dict snapshot =>
      let (calls, adapted) := runHooks hooks plan (snapshot.addAction step none)
      (call :: calls, adapted)
    | .strange => ([call], .error (.valueError step))
    | .raised error => ([call], .error (.hookError step error))

/-- `adapt_version`, with the hooks that it calls. -/
def adaptVersion (hooks : Hooks σ χ) (r : MigrationRegistry) (typeName : String)
    (snapshot : VersionedSnapshot σ χ) (sourceVer targetVer : ℤ) :
    List (HookCall σ χ) × Except AdaptError (VersionedSnapshot σ χ) :=
  match planMigration r typeName sourceVer targetVer with
  | .error error => ([], .error (.notMigratable error))
  | .ok plan => runHooks hooks plan snapshot

end Feat.Database
