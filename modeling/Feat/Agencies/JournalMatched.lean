import Feat.Agencies.JournalFlush

/- The cache of journal entries is used in matched pairs.

   For the journaler this holds in all runs; for the writers in all runs in which no
   flush is left by an exception between the fetch and the callbacks, and no entries
   come while the thread of a `SqliteWriter` is in the middle of a commit
   (`cache_matched`). A `BrokerProxyWriter` that is closed while a second flush waits
   for its turn calls `None`: the cache stays locked with no insertion in flight, and
   every later flush raises (`closed_stays_locked`). -/
namespace Feat.Agencies
open Transition

variable {E : Type}

/-! ## The journaler -/

namespace Journaler

/-- The cache is used in pairs, and the task stands for the insertion in flight. -/
structure Inv (s : Journaler E) : Prop where
  paired : s.use.Paired
  task : s.use.given.isSome ↔ s.task = .inserting

variable {s t : Journaler E}

theorem Inv.idle (h : Inv s) (htask : s.task ≠ .inserting) : s.use.given = none := by
  rw [← Option.not_isSome_iff_eq_none, h.task]
  exact htask

/-- Nothing is in flight. -/
theorem Inv.of_idle (hpaired : s.use.Paired) (hnone : s.use.given = none)
    (htask : s.task ≠ .inserting) : Inv s := by
  refine ⟨hpaired, iff_of_false ?_ htask⟩
  rw [hnone]
  exact fun h => (nomatch h)

theorem Inv.scheduleFlush (h : Inv s) : Inv s.scheduleFlush := by
  unfold Journaler.scheduleFlush
  split
  · rename_i hnone
    refine Inv.of_idle h.paired (h.idle ?_) (fun h => (nomatch h))
    rw [hnone.2]
    exact fun h => (nomatch h)
  · exact h

theorem Inv.insertEntries (h : Inv s) (entries : List E) : Inv (s.insertEntries entries) := by
  refine Inv.scheduleFlush ⟨h.paired.appendAll entries, ?_⟩
  exact h.task

theorem Inv.flushError {n : Nat} (hfetched : s.use.cache.fetched = some n)
    (hpaired : s.use.rollback.Paired) (hnone : s.use.rollback.given = none) : Inv s.flushError := by
  unfold Journaler.flushError EntriesCache.rollback
  rw [hfetched]
  exact Inv.of_idle hpaired hnone (fun h => (nomatch h))

/-- A flush is over whose insertion, if any, has succeeded. -/
theorem Inv.flushComplete (h : s.use.Paired) : Inv s.flushComplete := by
  -- the commit, if there is one, leaves nothing in flight
  have hcommitted : ∀ use : CacheUse E, use.Paired → use.given = none →
      Inv (if use.cache.cache.length > 0 then
        ({ s with use, task := .none } : Journaler E).scheduleFlush
        else { s with use, task := .none }) := by
    intro use hpaired hnone
    have hinv : Inv ({ s with use, task := .none } : Journaler E) :=
      Inv.of_idle hpaired hnone (fun h => (nomatch h))
    split
    · exact hinv.scheduleFlush
    · exact hinv
  unfold Journaler.flushComplete
  cases hgiven : s.use.given with
  | some entries =>
    have hlocked : s.use.cache.isLocked = true := by
      rw [EntriesCache.isLocked, (h.inserting entries hgiven).1]
      rfl
    obtain ⟨hpaired, hnone⟩ := h.commit hgiven
    simp only [hlocked, if_true]
    exact hcommitted _ hpaired hnone
  | none =>
    have hlocked : s.use.cache.isLocked = false := by
      rw [EntriesCache.isLocked, h.idle hgiven]
      rfl
    simp only [hlocked, Bool.false_eq_true, if_false]
    exact hcommitted _ h hgiven

theorem Inv.flushBody (h : Inv s) (htask : s.task ≠ .inserting) (refuses : Bool) :
    Inv (s.flushBody refuses) := by
  have hidle := h.idle htask
  unfold Journaler.flushBody
  rcases CacheUse.fetch_idle h.paired hidle with ⟨_, hfetch⟩ | ⟨hsome, hfetch⟩
  · rw [hfetch]
    exact Inv.flushComplete h.paired
  · cases hcache : s.use.cache.cache with
    | nil => exact absurd hcache hsome
    | cons entry entries =>
      rw [hcache] at hfetch
      rw [hfetch]
      dsimp only
      split
      · refine ⟨h.paired.started hidle hfetch (List.cons_ne_nil _ _), ?_⟩
        exact iff_of_true rfl rfl
      · obtain ⟨hfetched, hpaired, hnone⟩ :=
          h.paired.refused hidle hfetch (List.cons_ne_nil _ _)
        exact Inv.flushError hfetched hpaired hnone

theorem Inv.step {e : Event E} (h : Inv s) (hstep : s.step e = some t) : Inv t := by
  cases e with
  | insert entries =>
    cases hstep
    exact h.insertEntries entries
  | flush refuses =>
    simp only [Journaler.step, Option.ite_none_right_eq_some, Option.some.injEq] at hstep
    obtain ⟨htask, rfl⟩ := hstep
    have hne : s.task ≠ .inserting := by
      rw [htask]
      exact fun h => (nomatch h)
    unfold Journaler.flush
    split
    · exact h.flushBody hne refuses
    · exact Inv.of_idle h.paired (h.idle hne) (fun h => (nomatch h))
  | wake refuses =>
    simp only [Journaler.step, Option.ite_none_right_eq_some, Option.some.injEq] at hstep
    obtain ⟨htask, rfl⟩ := hstep
    refine h.flushBody ?_ refuses
    rw [htask]
    exact fun h => (nomatch h)
  | inserted ok =>
    simp only [Journaler.step, Option.ite_none_right_eq_some, Option.some.injEq] at hstep
    obtain ⟨htask, rfl⟩ := hstep
    obtain ⟨entries, hgiven⟩ := Option.isSome_iff_exists.mp (h.task.mpr htask)
    cases ok with
    | true => exact Inv.flushComplete h.paired
    | false =>
      obtain ⟨hpaired, hnone⟩ := h.paired.rollback hgiven
      exact Inv.flushError (h.paired.inserting entries hgiven).1 hpaired hnone
  | configureWith =>
    cases hstep
    unfold Journaler.configureWith
    split
    · exact h
    · exact Inv.scheduleFlush ⟨h.paired, h.task⟩
  | setDisconnected =>
    cases hstep
    exact ⟨h.paired, h.task⟩

theorem Inv.start : Inv (Journaler.new : Journaler E) :=
  Inv.of_idle CacheUse.Paired.new rfl (fun h => (nomatch h))

end Journaler

/-! ## Writers -/

section FlushPhase
variable {phase : FlushPhase E} {σ : Type} {a t : σ}

/-! A step of one phase was taken in it. -/

theorem FlushPhase.of_called
    (h : (match phase with | .called => some a | _ => none) = some t) : phase = .called ∧ a = t := by
  cases phase <;> cases h
  exact ⟨rfl, rfl⟩

theorem FlushPhase.of_inFlight
    (h : (match phase with | .inFlight => some a | _ => none) = some t) :
    phase = .inFlight ∧ a = t := by
  cases phase <;> cases h
  exact ⟨rfl, rfl⟩

theorem FlushPhase.of_storing {next : List E → σ}
    (h : (match phase with | .storing rest => some (next rest) | _ => none) = some t) :
    ∃ rest, phase = .storing rest ∧ next rest = t := by
  cases phase <;> cases h
  exact ⟨_, rfl, rfl⟩

theorem FlushPhase.of_finishing
    (h : (match phase with | .finishing => some a | _ => none) = some t) :
    phase = .finishing ∧ a = t := by
  cases phase <;> cases h
  exact ⟨rfl, rfl⟩

end FlushPhase

/-- An insertion is in flight. -/
def FlushPhase.inserting : FlushPhase E → Bool
  | .inFlight => true
  | .storing _ => true
  | _ => false

namespace Flusher
variable {f f' : Flusher E}

/-- The cache is used in pairs, the phase tells whether an insertion is in flight, and what is to be
stored is what stands behind the entries that are inserted. -/
structure Inv (f : Flusher E) : Prop where
  paired : f.use.Paired
  phase : f.use.given.isSome = f.phase.inserting
  storing : ∀ rest, f.phase = .storing rest →
    ∃ entries, f.use.given = some entries ∧ f.use.cache.cache = entries ++ rest

/-- No commit is in the middle. -/
def NotStoring (f : Flusher E) : Prop := ∀ rest, f.phase ≠ .storing rest

instance (f : Flusher E) : Decidable f.NotStoring :=
  match hphase : f.phase with
  | .storing rest => isFalse fun h => h rest hphase
  | .idle | .called | .inFlight | .finishing => isTrue fun _ h => by
    rw [hphase] at h
    cases h

theorem Inv.idle (h : Inv f) (hphase : f.phase.inserting = false) : f.use.given = none := by
  rw [← Option.not_isSome_iff_eq_none, h.phase, hphase]
  exact fun h => (nomatch h)

theorem Inv.of_idle (hpaired : f.use.Paired) (hnone : f.use.given = none)
    (hphase : f.phase.inserting = false) : Inv f := by
  refine ⟨hpaired, ?_, ?_⟩
  · rw [hnone, hphase]
    rfl
  · intro rest hrest
    rw [hrest] at hphase
    cases hphase

/-- Calls that wait or are due do not matter. -/
theorem Inv.of_eq (h : Inv f) (huse : f'.use = f.use) (hphase : f'.phase = f.phase) : Inv f' := by
  refine ⟨huse ▸ h.paired, ?_, ?_⟩
  · rw [huse, hphase]
    exact h.phase
  · intro rest hrest
    rw [huse]
    exact h.storing rest (hphase ▸ hrest)

theorem Inv.connected (h : Inv f) (connected : Bool) : Inv { f with connected } := h.of_eq rfl rfl

theorem Inv.flushBody (h : Inv f) : Inv f.flushBody := by
  unfold Flusher.flushBody
  split
  · exact h
  · split
    · rename_i hidle
      exact Inv.of_idle h.paired (h.idle (by rw [hidle]; rfl)) rfl
    · exact h.of_eq rfl rfl

theorem Inv.flushNext (h : Inv f) : Inv f.flushNext := by
  unfold Flusher.flushNext
  split
  · exact h.flushBody
  · exact h.of_eq rfl rfl

/-- The turn is given on with nothing in flight. -/
theorem Inv.release (hpaired : f.use.Paired) (hnone : f.use.given = none) : Inv f.release := by
  unfold Flusher.release
  split
  · exact Inv.of_idle hpaired hnone rfl
  · exact Inv.of_idle hpaired hnone rfl

theorem Inv.succeeded (hpaired : f.use.Paired) (hnone : f.use.given = none) : Inv f.succeeded :=
  Inv.release hpaired hnone

/-- A flush runs, and no exception leaves it before its insertion. -/
theorem Inv.begin (h : Inv f) (hphase : f.phase.inserting = false) {start : List E → Start}
    (hstart : f.use.cache.cache ≠ [] → start f.use.cache.cache ≠ .raises) :
    Inv (f.begin start) := by
  have hidle := h.idle hphase
  unfold Flusher.begin
  rcases CacheUse.fetch_idle h.paired hidle with ⟨_, hfetch⟩ | ⟨hsome, hfetch⟩
  · rw [hfetch]
    exact Inv.succeeded h.paired hidle
  · have hgoes := hstart hsome
    cases hcache : f.use.cache.cache with
    | nil => exact absurd hcache hsome
    | cons entry entries =>
      rw [hcache] at hfetch hgoes
      rw [hfetch]
      dsimp only
      split
      · refine ⟨h.paired.started hidle hfetch (List.cons_ne_nil _ _), rfl, ?_⟩
        exact fun _ h => (nomatch h)
      · obtain ⟨_, hpaired, hnone⟩ := h.paired.refused hidle hfetch (List.cons_ne_nil _ _)
        exact Inv.succeeded hpaired hnone
      · rename_i hraises
        exact absurd hraises hgoes

/-- What all writers have in common keeps the invariant, if entries do not come in the middle of a
commit. -/
theorem Inv.step {e : FlushEvent E} (h : Inv f) (hquiet : ∀ es, e = .insert es → f.NotStoring)
    (hstep : f.step e = some f') : Inv f' := by
  cases e with
  | insert entries =>
    cases hstep
    refine Inv.flushNext ⟨h.paired.appendAll entries, h.phase, ?_⟩
    exact fun rest hrest => absurd hrest (hquiet entries rfl rest)
  | flush =>
    cases hstep
    exact h.flushNext
  | wake =>
    simp only [Flusher.step, Option.ite_none_left_eq_some, Option.some.injEq] at hstep
    obtain ⟨_, rfl⟩ := hstep
    exact Inv.flushBody (h.of_eq rfl rfl)
  | cancel =>
    cases hstep
    exact h.of_eq rfl rfl
  | again =>
    simp only [Flusher.step, Option.ite_none_left_eq_some, Option.some.injEq] at hstep
    obtain ⟨_, rfl⟩ := hstep
    exact Inv.flushNext (h.of_eq rfl rfl)

/-- The insertion that is in flight ends, with a commit or a rollback. -/
theorem Inv.ended (h : Inv f) (hphase : f.phase = .inFlight) (ok : Bool) :
    (if ok then f.use.commit else f.use.rollback).Paired ∧
      (if ok then f.use.commit else f.use.rollback).given = none := by
  obtain ⟨entries, hgiven⟩ : ∃ entries, f.use.given = some entries := by
    refine Option.isSome_iff_exists.mp ?_
    rw [h.phase, hphase]
    rfl
  cases ok with
  | true => exact h.paired.commit hgiven
  | false => exact h.paired.rollback hgiven

theorem Inv.start : Inv (Flusher.new : Flusher E) := Inv.of_idle CacheUse.Paired.new rfl rfl

/-! Only a `SqliteWriter` stores what is left in a step of its own. -/

theorem NotStoring.of_eq (h : f.NotStoring) (hphase : f'.phase = f.phase) : f'.NotStoring := by
  intro rest hrest
  exact h rest (hphase ▸ hrest)

theorem NotStoring.flushBody (h : f.NotStoring) : f.flushBody.NotStoring := by
  unfold Flusher.flushBody
  split
  · exact h
  · split
    · exact fun _ h => (nomatch h)
    · exact h

theorem NotStoring.flushNext (h : f.NotStoring) : f.flushNext.NotStoring := by
  unfold Flusher.flushNext
  split
  · exact h.flushBody
  · exact h

theorem notStoring_release (f : Flusher E) : f.release.NotStoring := by
  unfold Flusher.release
  split <;> exact fun _ h => (nomatch h)

theorem notStoring_begin (f : Flusher E) (start : List E → Start) :
    (f.begin start).NotStoring := by
  unfold Flusher.begin
  split
  · exact notStoring_release _
  · exact notStoring_release _
  · split
    · exact fun _ h => (nomatch h)
    · exact notStoring_release _
    · exact notStoring_release _

theorem NotStoring.step {e : FlushEvent E} (h : f.NotStoring) (hstep : f.step e = some f') :
    f'.NotStoring := by
  cases e with
  | insert entries =>
    cases hstep
    exact NotStoring.flushNext (h.of_eq rfl)
  | flush =>
    cases hstep
    exact h.flushNext
  | wake =>
    simp only [Flusher.step, Option.ite_none_left_eq_some, Option.some.injEq] at hstep
    obtain ⟨_, rfl⟩ := hstep
    exact NotStoring.flushBody (h.of_eq rfl)
  | cancel =>
    cases hstep
    exact h
  | again =>
    simp only [Flusher.step, Option.ite_none_left_eq_some, Option.some.injEq] at hstep
    obtain ⟨_, rfl⟩ := hstep
    exact NotStoring.flushNext (h.of_eq rfl)

end Flusher

namespace BrokerProxyWriter
variable {s t : BrokerProxyWriter E}

/-- A flush with entries does not run without a journaler. -/
def Sound (s : BrokerProxyWriter E) : Event E → Prop
  | .pushEntries => s.flusher.use.cache.cache ≠ [] → s.journaler ≠ none
  | _ => True

instance (s : BrokerProxyWriter E) : (e : Event E) → Decidable (Sound s e)
  | .pushEntries => inferInstanceAs (Decidable (_ ≠ [] → _ ≠ none))
  | .common _ | .initiate | .gone | .onDisconnect | .pushed _ => inferInstanceAs (Decidable True)

theorem step_inv {e : Event E} (h : s.flusher.Inv ∧ s.flusher.NotStoring) (hsound : Sound s e)
    (hstep : s.step e = some t) : t.flusher.Inv ∧ t.flusher.NotStoring := by
  obtain ⟨hinv, hnot⟩ := h
  cases e with
  | common e =>
    obtain ⟨flusher, hflusher, rfl⟩ := Option.map_eq_some_iff.mp hstep
    exact ⟨hinv.step (fun _ _ => hnot) hflusher, hnot.step hflusher⟩
  | initiate =>
    cases hstep
    exact ⟨hinv.connected true, hnot⟩
  | gone =>
    cases hstep
    exact ⟨hinv, hnot⟩
  | onDisconnect =>
    cases hstep
    exact ⟨hinv.connected false, hnot⟩
  | pushEntries =>
    obtain ⟨hphase, rfl⟩ := FlushPhase.of_called hstep
    unfold BrokerProxyWriter.pushEntries
    dsimp only
    refine ⟨hinv.begin (by rw [hphase]; rfl) ?_, Flusher.notStoring_begin _ _⟩
    intro hsome
    have hjournaler := hsound hsome
    cases hknown : s.journaler with
    | none => exact absurd hknown hjournaler
    | some there => cases there <;> exact fun h => (nomatch h)
  | pushed ok =>
    obtain ⟨hphase, rfl⟩ := FlushPhase.of_inFlight hstep
    obtain ⟨hpaired, hnone⟩ := hinv.ended hphase ok
    exact ⟨Flusher.Inv.succeeded hpaired hnone, Flusher.notStoring_release _⟩

end BrokerProxyWriter

namespace SqliteWriter
variable {s t : SqliteWriter E}

/-- Entries do not come while the thread is in the middle of a commit. -/
def Sound (s : SqliteWriter E) : Event E → Prop
  | .common (.insert _) => s.flusher.NotStoring
  | _ => True

instance (s : SqliteWriter E) : (e : Event E) → Decidable (Sound s e)
  | .common (.insert _) => inferInstanceAs (Decidable s.flusher.NotStoring)
  | .common .flush | .common .wake | .common .cancel | .common .again | .initiatedOk | .close
  | .notRun | .transaction | .failed | .slice | .store | .finished _ =>
    inferInstanceAs (Decidable True)

theorem step_inv {e : Event E} (h : s.flusher.Inv) (hsound : Sound s e)
    (hstep : s.step e = some t) : t.flusher.Inv := by
  cases e with
  | common e =>
    obtain ⟨flusher, hflusher, rfl⟩ := Option.map_eq_some_iff.mp hstep
    refine h.step ?_ hflusher
    rintro entries rfl
    exact hsound
  | initiatedOk =>
    cases hstep
    exact (h.connected true).flushNext
  | close =>
    cases hstep
    exact h.connected false
  | notRun =>
    obtain ⟨hphase, rfl⟩ := FlushPhase.of_called hstep
    exact Flusher.Inv.release h.paired (h.idle (by rw [hphase]; rfl))
  | transaction =>
    obtain ⟨hphase, rfl⟩ := FlushPhase.of_called hstep
    dsimp only
    refine h.begin (by rw [hphase]; rfl) ?_
    exact fun _ h => (nomatch h)
  | failed =>
    obtain ⟨hphase, rfl⟩ := FlushPhase.of_inFlight hstep
    obtain ⟨hpaired, hnone⟩ := h.ended hphase false
    exact Flusher.Inv.of_idle hpaired hnone rfl
  | slice =>
    obtain ⟨hphase, rfl⟩ := FlushPhase.of_inFlight hstep
    obtain ⟨entries, hgiven⟩ : ∃ entries, s.flusher.use.given = some entries := by
      refine Option.isSome_iff_exists.mp ?_
      rw [h.phase, hphase]
      rfl
    obtain ⟨hfetched, rest, hrest⟩ := h.paired.inserting entries hgiven
    unfold slice
    rw [hfetched]
    refine ⟨h.paired, ?_, ?_⟩
    · rw [hgiven]
      rfl
    · intro rest' hstored
      cases hstored
      refine ⟨entries, hgiven, ?_⟩
      rw [← hrest, List.drop_left]
  | store =>
    obtain ⟨rest, hphase, rfl⟩ := FlushPhase.of_storing hstep
    obtain ⟨entries, hgiven, hcache⟩ := h.storing rest hphase
    obtain ⟨hfetched, _⟩ := h.paired.inserting entries hgiven
    refine Flusher.Inv.of_idle ⟨h.paired.none_raised, ?_, fun _ h => (nomatch h), fun _ => rfl⟩
      rfl rfl
    intro p hp
    rcases List.mem_append.mp hp with hp | hp
    · exact h.paired.removed p hp
    · rw [List.mem_singleton.mp hp, hfetched, hgiven, hcache]
      simp
  | finished ok =>
    obtain ⟨hphase, rfl⟩ := FlushPhase.of_finishing hstep
    have hnone := h.idle (by rw [hphase]; rfl)
    cases ok with
    | true => exact Flusher.Inv.succeeded h.paired hnone
    | false => exact Flusher.Inv.release h.paired hnone

end SqliteWriter

namespace PostgresWriter
variable {hasType : E → Bool} {s t : PostgresWriter E}

/-- A flush runs only on entries that have a type. -/
def Sound (hasType : E → Bool) (s : PostgresWriter E) : Event E → Prop
  | .performInserts => ∀ entry ∈ s.flusher.use.cache.cache, hasType entry = true
  | _ => True

instance (hasType : E → Bool) (s : PostgresWriter E) : (e : Event E) → Decidable (Sound hasType s e)
  | .performInserts => inferInstanceAs (Decidable (∀ entry ∈ _, _ = true))
  | .common _ | .connectionEstablished | .close | .notRun | .inserted _ | .finished _ =>
    inferInstanceAs (Decidable True)

theorem step_inv {e : Event E} (h : s.flusher.Inv ∧ s.flusher.NotStoring)
    (hsound : Sound hasType s e) (hstep : s.step hasType e = some t) :
    t.flusher.Inv ∧ t.flusher.NotStoring := by
  obtain ⟨hinv, hnot⟩ := h
  cases e with
  | common e =>
    obtain ⟨flusher, hflusher, rfl⟩ := Option.map_eq_some_iff.mp hstep
    exact ⟨hinv.step (fun _ _ => hnot) hflusher, hnot.step hflusher⟩
  | connectionEstablished =>
    cases hstep
    have hquiet : Flusher.NotStoring { s.flusher with connected := true } := hnot
    exact ⟨(hinv.connected true).flushNext, hquiet.flushNext⟩
  | close =>
    cases hstep
    exact ⟨hinv.connected false, hnot⟩
  | notRun =>
    obtain ⟨hphase, rfl⟩ := FlushPhase.of_called hstep
    exact ⟨Flusher.Inv.release hinv.paired (hinv.idle (by rw [hphase]; rfl)),
      Flusher.notStoring_release _⟩
  | performInserts =>
    obtain ⟨hphase, rfl⟩ := FlushPhase.of_called hstep
    unfold performInserts
    dsimp only
    refine ⟨hinv.begin (by rw [hphase]; rfl) ?_, Flusher.notStoring_begin _ _⟩
    intro _
    rw [if_pos (List.all_eq_true.mpr hsound)]
    exact fun h => (nomatch h)
  | inserted ok =>
    obtain ⟨hphase, rfl⟩ := FlushPhase.of_inFlight hstep
    obtain ⟨hpaired, hnone⟩ := hinv.ended hphase ok
    exact ⟨Flusher.Inv.of_idle hpaired hnone rfl, fun _ h => (nomatch h)⟩
  | finished ok =>
    obtain ⟨hphase, rfl⟩ := FlushPhase.of_finishing hstep
    have hnone := hinv.idle (by rw [hphase]; rfl)
    cases ok with
    | true => exact ⟨Flusher.Inv.succeeded hinv.paired hnone, Flusher.notStoring_release _⟩
    | false => exact ⟨Flusher.Inv.release hinv.paired hnone, Flusher.notStoring_release _⟩

end PostgresWriter

/-! ## Runs -/

/-- The journaler uses its cache in matched pairs in every run, and each of the writers does in every
run whose steps are sound. -/
theorem cache_matched (hasType : E → Bool) :
    (∀ events (s : Journaler E), Run (Defined Journaler.step) .new events s → s.use.Matched) ∧
    (∀ events (s : BrokerProxyWriter E),
      Run (Guarded BrokerProxyWriter.Sound (Defined BrokerProxyWriter.step)) .new events s →
        s.flusher.use.Matched) ∧
    (∀ events (s : SqliteWriter E),
      Run (Guarded SqliteWriter.Sound (Defined SqliteWriter.step)) .new events s →
        s.flusher.use.Matched) ∧
    ∀ events (s : PostgresWriter E),
      Run (Guarded (PostgresWriter.Sound hasType) (Defined (PostgresWriter.step hasType))) .new
        events s → s.flusher.use.Matched := by
  have hquiet : (Flusher.new : Flusher E).NotStoring := fun _ h => (nomatch h)
  refine ⟨fun events s hrun => ?_, fun events s hrun => ?_, fun events s hrun => ?_,
    fun events s hrun => ?_⟩
  · have hkeep : ∀ (s : Journaler E) e t, s.Inv → Defined Journaler.step s e t → t.Inv :=
      fun _ _ _ h hstep => h.step hstep
    have hinv := Run.preserves hkeep hrun Journaler.Inv.start
    exact hinv.paired.matched
  · have hkeep : ∀ (s : BrokerProxyWriter E) e t, s.flusher.Inv ∧ s.flusher.NotStoring →
        Guarded BrokerProxyWriter.Sound (Defined BrokerProxyWriter.step) s e t →
        t.flusher.Inv ∧ t.flusher.NotStoring :=
      fun _ _ _ h hstep => BrokerProxyWriter.step_inv h hstep.1 hstep.2
    have hinv := Run.preserves hkeep hrun ⟨Flusher.Inv.start, hquiet⟩
    exact hinv.1.paired.matched
  · have hkeep : ∀ (s : SqliteWriter E) e t, s.flusher.Inv →
        Guarded SqliteWriter.Sound (Defined SqliteWriter.step) s e t → t.flusher.Inv :=
      fun _ _ _ h hstep => SqliteWriter.step_inv h hstep.1 hstep.2
    have hinv := Run.preserves hkeep hrun Flusher.Inv.start
    exact hinv.paired.matched
  · have hkeep : ∀ (s : PostgresWriter E) e t, s.flusher.Inv ∧ s.flusher.NotStoring →
        Guarded (PostgresWriter.Sound hasType) (Defined (PostgresWriter.step hasType)) s e t →
        t.flusher.Inv ∧ t.flusher.NotStoring :=
      fun _ _ _ h hstep => PostgresWriter.step_inv h hstep.1 hstep.2
    have hinv := Run.preserves hkeep hrun ⟨Flusher.Inv.start, hquiet⟩
    exact hinv.1.paired.matched

/-- Insertions that fail, and are made again with the entries that came since. -/
theorem cache_matched_retried :
    let journaler : List (Journaler.Event Nat) :=
      [.configureWith, .insert [0], .flush false, .inserted false, .insert [1], .configureWith,
        .flush false, .inserted true]
    let proxy : List (BrokerProxyWriter.Event Nat) :=
      [.initiate, .common (.insert [0]), .pushEntries, .common (.insert [1]), .pushed false,
        .pushEntries, .pushed true]
    let sqlite : List (SqliteWriter.Event Nat) :=
      [.initiatedOk, .common (.insert [0]), .transaction, .failed, .finished true,
        .common (.insert [1]), .transaction, .slice, .store, .finished true]
    let postgres : List (PostgresWriter.Event Nat) :=
      [.connectionEstablished, .common (.insert [0]), .performInserts, .common (.insert [1]),
        .inserted false, .finished true, .performInserts, .inserted true, .finished true]
    (∃ s, journaler.foldlM Journaler.step .new = some s ∧
      s.use.Matched ∧ s.use.commits = [([0, 1], [0, 1])]) ∧
    (∃ s, proxy.foldlM BrokerProxyWriter.step .new = some s ∧
      s.flusher.use.Matched ∧ s.flusher.use.commits = [([0, 1], [0, 1])]) ∧
    (∃ s, sqlite.foldlM SqliteWriter.step .new = some s ∧
      s.flusher.use.Matched ∧ s.flusher.use.commits = [([0, 1], [0, 1])]) ∧
    ∃ s, postgres.foldlM (PostgresWriter.step fun _ => true) .new = some s ∧
      s.flusher.use.Matched ∧ s.flusher.use.commits = [([0, 1], [0, 1])] := by
  intro journaler proxy sqlite postgres
  obtain ⟨hjournaler, hproxy, hsqlite, hpostgres⟩ := cache_matched (E := Nat) fun _ => true
  exact ⟨⟨_, rfl, hjournaler journaler _ (run_defined rfl), rfl⟩,
    ⟨_, rfl, hproxy proxy _ (run_checked rfl), rfl⟩,
    ⟨_, rfl, hsqlite sqlite _ (run_checked rfl), rfl⟩,
    ⟨_, rfl, hpostgres postgres _ (run_checked rfl), rfl⟩⟩

/-- A `BrokerProxyWriter` is closed while the entry 1 waits for its turn behind the entry 0. When it
has its turn it calls `None`, and the cache is locked with no insertion in flight; once connected
again the next flush raises. -/
theorem closed_stays_locked :
    let closed : List (BrokerProxyWriter.Event Nat) :=
      [.initiate, .common (.insert [0]), .pushEntries, .common (.insert [1]), .onDisconnect,
        .pushed true, .pushEntries]
    let later : List (BrokerProxyWriter.Event Nat) :=
      [.initiate, .common (.insert [2]), .pushEntries]
    (∃ s, Run (Defined BrokerProxyWriter.step) .new closed s ∧ ¬ s.flusher.use.Matched) ∧
      ∃ s, Run (Defined BrokerProxyWriter.step) .new (closed ++ later) s ∧
        s.flusher.use.raised = [.fetch] ∧ s.flusher.use.cache.cache = [1, 2] := by
  intro closed later
  constructor
  · have hend : ((closed.foldlM BrokerProxyWriter.step .new).map fun s =>
        (s.flusher.use.cache.isLocked, s.flusher.use.given)) = some (true, none) := by decide
    obtain ⟨s, hs, heq⟩ := Option.map_eq_some_iff.mp hend
    obtain ⟨hlocked, hgiven⟩ := Prod.mk.inj heq
    refine ⟨s, run_defined hs, fun h => ?_⟩
    have hsome := h.locked hlocked
    rw [hgiven] at hsome
    cases hsome
  · have hend : (((closed ++ later).foldlM BrokerProxyWriter.step .new).map fun s =>
        (s.flusher.use.raised, s.flusher.use.cache.cache)) = some ([.fetch], [1, 2]) := by decide
    obtain ⟨s, hs, heq⟩ := Option.map_eq_some_iff.mp hend
    obtain ⟨hraised, hcache⟩ := Prod.mk.inj heq
    exact ⟨s, run_defined hs, hraised, hcache⟩

end Feat.Agencies
