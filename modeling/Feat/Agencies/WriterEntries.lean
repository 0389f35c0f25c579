import Feat.Agencies.JournalWriting

/- What a `PostgresWriter` does with its entries.

   A step of a writer brings no entry and moves none out of its place. It loses those
   whose COMMIT fails, keeps the others, and tells the journaler that its chain
   succeeded only when all the writer has is stored (`PostgresWriter.step_effect`). The
   last step of such a chain is one of two (`PostgresWriter.step_completes`). -/
namespace Feat.Agencies.Journaling

/-- Who waits is the journaler. -/
def Owner.weight (owner : Owner) : Nat := if owner = .journaler then 1 else 0

namespace PostgresWriter
variable {w v : PostgresWriter} {owner : Owner} {outcome : Option Bool} {lost : List Nat}

/-- The entries whose COMMIT is on its way. -/
def storing (w : PostgresWriter) : List Nat :=
  match w.running with
  | some (_, .committing entries) => entries
  | _ => []

/-- The entries a writer has, in the order in which it stores them. -/
def entries (w : PostgresWriter) : List Nat := w.stored ++ w.storing ++ w.cache.cache

/-- How many chains the journaler waits for. -/
def awaited (w : PostgresWriter) : Nat :=
  w.waiting.count .journaler + w.queue.count .journaler +
    (w.running.elim 0 fun r => Owner.weight r.1)

/-- The cache is locked while inserts are on their way, nothing has begun while the others are not
told of the connection, and nothing is done before there is one. -/
structure Inv (w : PostgresWriter) : Prop where
  locked : ∀ owner, w.running = some (owner, .inserting) →
    ∃ n, w.cache.fetched = some n ∧ n ≤ w.cache.cache.length
  unlocked : (∀ owner, w.running ≠ some (owner, .inserting)) → w.cache.fetched = none
  quiet : w.notifying = true → ∀ owner phase, w.running = some (owner, phase) → phase = .called
  early : w.connection ≠ .established →
    w.running = none ∧ w.connected = false ∧ w.notifying = false

/-- What may become of a writer: no entry comes or changes its place, none goes but those that are
lost, all are stored when the journaler is told so, and the journaler waits for what is left. -/
structure Effect (w v : PostgresWriter) (outcome : Option Bool) (lost : List Nat) : Prop where
  inv : Inv v
  stored : ∀ e ∈ w.stored, e ∈ v.stored
  sublist : v.entries.Sublist w.entries
  kept : ∀ e ∈ w.entries, e ∈ v.entries ∨ e ∈ lost
  done : outcome = some true → ∀ e ∈ v.entries, e ∈ v.stored
  awaited : v.awaited + (if outcome.isSome then 1 else 0) = w.awaited

/-- No entry is lost. -/
theorem Effect.of_entries (hinv : Inv v) (hstored : ∀ e ∈ w.stored, e ∈ v.stored)
    (hsame : v.entries = w.entries)
    (hdone : outcome = some true → v.cache.cache = [] ∧ v.storing = [])
    (hawaited : v.awaited + (if outcome.isSome then 1 else 0) = w.awaited) :
    Effect w v outcome [] := by
  refine ⟨hinv, hstored, hsame ▸ List.Sublist.refl _, fun e he => Or.inl (hsame ▸ he), ?_, hawaited⟩
  intro hsome e he
  obtain ⟨hnone, hidle⟩ := hdone hsome
  rw [entries, hnone, hidle, List.append_nil, List.append_nil] at he
  exact he

/-- No entry is moved. -/
theorem Effect.of_same (hinv : Inv v) (hstored : v.stored = w.stored)
    (hstoring : v.storing = w.storing) (hcache : v.cache.cache = w.cache.cache)
    (hdone : outcome = some true → v.cache.cache = [] ∧ v.storing = [])
    (hawaited : v.awaited + (if outcome.isSome then 1 else 0) = w.awaited) :
    Effect w v outcome [] := by
  refine .of_entries hinv (fun e he => hstored ▸ he) ?_ hdone hawaited
  unfold entries
  rw [hstored, hstoring, hcache]

theorem Inv.established (h : Inv w) (hconnected : w.connected = true) :
    w.connection = .established := by
  refine Decidable.byContradiction fun hnot => ?_
  rw [(h.early hnot).2.1] at hconnected
  cases hconnected

/-! ### The calls of `_flush_next` -/

/-- A chain of calls goes on: it changes nothing but who waits for what. -/
structure Goes (w : PostgresWriter) (owner : Owner) (next : Outcome) : Prop where
  inv : Inv next.1
  stored : next.1.stored = w.stored
  storing : next.1.storing = w.storing
  cache : next.1.cache = w.cache
  connection : next.1.connection = w.connection
  notifying : next.1.notifying = w.notifying
  empty : next.2 = some true → w.cache.cache = []
  own : owner = .own → next.2 = none
  awaited : next.1.awaited + (if next.2.isSome then 1 else 0) = w.awaited + Owner.weight owner

theorem goes_fired (h : Inv w) (owner : Owner) (ok : Bool) (hempty : ok = true → w.cache.cache = []) :
    Goes w owner (w.fired owner ok) := by
  refine ⟨h, rfl, rfl, rfl, rfl, rfl, ?_, ?_, ?_⟩
  · intro hsome
    cases owner <;> cases hsome
    exact hempty rfl
  · rintro rfl
    rfl
  · cases owner <;> rfl

theorem goes_runInteraction (h : Inv w) (hconnection : w.connection = .established)
    (owner : Owner) : Goes w owner (w.runInteraction owner, none) := by
  unfold runInteraction
  split
  · rename_i hrunning
    rw [Option.isNone_iff_eq_none] at hrunning
    have hunlocked := h.unlocked (by
      rw [hrunning]
      exact fun _ h => (nomatch h))
    refine ⟨⟨?_, fun _ => hunlocked, ?_, fun hnot => absurd hconnection hnot⟩, rfl, ?_, rfl, rfl,
      rfl, fun h => (nomatch h), fun _ => rfl, ?_⟩
    · intro _ h
      cases h
    · intro _ _ _ h
      cases h
      rfl
    · unfold storing
      rw [hrunning]
    · unfold PostgresWriter.awaited
      rw [hrunning]
      rfl
  · refine ⟨⟨h.locked, h.unlocked, h.quiet, h.early⟩, rfl, rfl, rfl, rfl, rfl,
      fun h => (nomatch h), fun _ => rfl, ?_⟩
    unfold PostgresWriter.awaited
    cases owner <;> simp [List.count_append, Owner.weight]
    omega

theorem goes_flushBody (h : Inv w) (hconnection : w.connection = .established) (owner : Owner) :
    Goes w owner (w.flushBody owner) := by
  unfold flushBody
  split
  · rename_i hempty
    exact goes_fired h owner true fun _ => List.isEmpty_iff.mp hempty
  · split
    · exact goes_runInteraction h hconnection owner
    · exact goes_fired h owner false fun h => (nomatch h)

theorem goes_flushNext (h : Inv w) (owner : Owner) : Goes w owner (w.flushNext owner) := by
  unfold flushNext
  split
  · rename_i hconnected
    exact goes_flushBody h (h.established hconnected) owner
  · refine ⟨⟨h.locked, h.unlocked, h.quiet, h.early⟩, rfl, rfl, rfl, rfl, rfl,
      fun h => (nomatch h), fun _ => rfl, ?_⟩
    unfold PostgresWriter.awaited
    cases owner <;> simp [List.count_append, Owner.weight]
    omega

/-- All that wait go on. -/
structure GoAll (w : PostgresWriter) (owners : List Owner) (next : Outcome) : Prop where
  inv : Inv next.1
  stored : next.1.stored = w.stored
  storing : next.1.storing = w.storing
  cache : next.1.cache = w.cache
  empty : next.2 = some true → w.cache.cache = []
  own : .journaler ∉ owners → next.2 = none
  awaited : owners.count .journaler ≤ 1 →
    next.1.awaited + (if next.2.isSome then 1 else 0) = w.awaited + owners.count .journaler

theorem goAll_wake (h : Inv w) (hconnection : w.connection = .established) (owners : List Owner) :
    GoAll w owners (w.wake owners) := by
  induction owners generalizing w with
  | nil => exact ⟨h, rfl, rfl, rfl, fun h => (nomatch h), fun _ => rfl, fun _ => rfl⟩
  | cons owner owners ih =>
    have hgoes := goes_flushBody h hconnection owner
    have hrest := ih hgoes.inv (hgoes.connection.trans hconnection)
    refine ⟨hrest.inv, hrest.stored.trans hgoes.stored, hrest.storing.trans hgoes.storing,
      hrest.cache.trans hgoes.cache, ?_, ?_, ?_⟩
    · intro hsome
      rcases Option.or_eq_some_iff.mp hsome with hfirst | ⟨_, hlater⟩
      · exact hgoes.empty hfirst
      · exact hgoes.cache ▸ hrest.empty hlater
    · intro hnot
      rw [List.mem_cons, not_or] at hnot
      have hown : owner = .own := by
        cases owner with
        | own => rfl
        | journaler => exact absurd rfl hnot.1
      exact Option.or_eq_none_iff.mpr ⟨hgoes.own hown, hrest.own hnot.2⟩
    · intro hone
      have hawaited := hgoes.awaited
      rw [wake]
      cases owner with
      | own =>
        have hcount : (Owner.own :: owners).count .journaler = owners.count .journaler := by simp
        rw [hcount] at hone ⊢
        have hnone := hgoes.own rfl
        rw [hnone] at hawaited ⊢
        rw [Option.none_or, hrest.awaited hone]
        exact congrArg (· + owners.count .journaler) hawaited
      | journaler =>
        have hcount : (Owner.journaler :: owners).count .journaler =
            owners.count .journaler + 1 := by simp
        rw [hcount] at hone ⊢
        -- nobody else waits for the journaler
        have hzero : owners.count .journaler = 0 := by omega
        have hnone := hrest.own (List.count_eq_zero.mp hzero)
        have hrest' := hrest.awaited (by omega)
        rw [hnone, hzero] at hrest'
        rw [hnone, hzero, Option.or_none]
        have hsame : ((w.flushBody .journaler).1.wake owners).1.awaited =
          (w.flushBody .journaler).1.awaited := hrest'
        rw [hsame]
        exact hawaited

/-! ### The steps -/

theorem Inv.running (h : Inv w) {r : Owner × Interaction} (hrunning : w.running = some r) :
    w.connection = .established := by
  refine Decidable.byContradiction fun hnot => ?_
  rw [(h.early hnot).1] at hrunning
  cases hrunning

theorem Inv.notInserting (h : Inv w) {phase : Interaction} (hrunning : w.running = some (owner, phase))
    (hphase : phase ≠ .inserting) : w.cache.fetched = none := by
  refine h.unlocked fun owner' hinserting => hphase ?_
  rw [hrunning] at hinserting
  cases hinserting
  rfl

theorem inv_release (hconnection : w.connection = .established)
    (hfetched : w.cache.fetched = none) : Inv w.release := by
  unfold release
  split <;> exact ⟨fun _ h => (nomatch h), fun _ => hfetched, by
    intro _ _ _ h
    cases h <;> rfl, fun hnot => absurd hconnection hnot⟩

theorem storing_release (w : PostgresWriter) : w.release.storing = [] := by
  unfold release
  split <;> rfl

theorem stored_release (w : PostgresWriter) : w.release.stored = w.stored := by
  unfold release
  split <;> rfl

theorem cache_release (w : PostgresWriter) : w.release.cache = w.cache := by
  unfold release
  split <;> rfl

theorem awaited_release {phase : Interaction} (hrunning : w.running = some (owner, phase)) :
    w.release.awaited + owner.weight = w.awaited := by
  unfold release PostgresWriter.awaited
  rw [hrunning]
  cases hqueue : w.queue with
  | nil => rfl
  | cons next queue =>
    cases next <;> simp [Owner.weight]
    omega

/-- Nothing is left to do for an interaction: its chain fails. -/
theorem Effect.failed (hconnection : w.connection = .established) {phase : Interaction}
    (hrunning : w.running = some (owner, phase)) (hcache : v.cache.cache = w.cache.cache)
    (hfetched : v.cache.fetched = none) (hv : v = { w with cache := v.cache }) :
    Effect w (v.release.fired owner false).1 (v.release.fired owner false).2 w.storing := by
  have hrunning' : v.running = some (owner, phase) := by
    rw [hv]
    exact hrunning
  have hstored : v.release.stored = w.stored := by
    rw [stored_release, hv]
  have hentries : v.release.entries = w.stored ++ w.cache.cache := by
    rw [entries, hstored, storing_release, cache_release, hcache, List.append_nil]
  refine ⟨inv_release ?_ hfetched, fun e he => hstored ▸ he, ?_, ?_, ?_, ?_⟩
  · rw [hv]
    exact hconnection
  · show v.release.entries.Sublist _
    rw [hentries, entries, List.append_assoc]
    exact (List.Sublist.refl _).append (List.sublist_append_right _ _)
  · intro e he
    show e ∈ v.release.entries ∨ _
    rw [hentries]
    simp only [entries, List.mem_append] at he ⊢
    tauto
  · intro hdone
    cases owner <;> cases hdone
  · have hawaited := awaited_release hrunning'
    have hsame : v.awaited = w.awaited := by
      rw [hv]
      rfl
    rw [← hsame, ← hawaited]
    cases owner <;> rfl

theorem awaited_cancel (hone : w.awaited ≤ 1) :
    w.cancel.1.awaited + (if w.cancel.2.isSome then 1 else 0) = w.awaited := by
  unfold cancel PostgresWriter.awaited at *
  by_cases hmem : Owner.journaler ∈ w.waiting
  · have hpos : 0 < w.waiting.count .journaler := List.count_pos_iff.mpr hmem
    simp only [hmem, if_true, Option.isSome_some, List.count_nil]
    omega
  · simp only [hmem, if_false, Option.isSome_none, Bool.false_eq_true, List.count_nil,
      List.count_eq_zero.mpr hmem, Nat.add_zero]

/-- Waits are cancelled, and who waits is told that it failed. -/
theorem Effect.cancel (hinv : Inv v) (hstored : v.stored = w.stored)
    (hrunning : v.running = w.running) (hcache : v.cache = w.cache)
    (hawaited : v.awaited = w.awaited) (hone : w.awaited ≤ 1) :
    Effect w v.cancel.1 v.cancel.2 [] := by
  refine .of_same ⟨hinv.locked, hinv.unlocked, hinv.quiet, hinv.early⟩ hstored ?_
    (congrArg _ hcache) ?_ ((awaited_cancel (hawaited ▸ hone)).trans hawaited)
  · unfold storing
    rw [show v.cancel.1.running = w.running from hrunning]
  · intro hdone
    unfold PostgresWriter.cancel at hdone
    split at hdone <;> cases hdone

/-- The entries that a step loses: those whose COMMIT fails. -/
def lostBy (w : PostgresWriter) : Event → List Nat
  | .committed false => w.storing
  | _ => []

theorem effect_connectionFailed (h : Inv w) (hone : w.awaited ≤ 1)
    (hinitiated : w.connection = .initiated) (givesUp : Bool) :
    Effect w (w.connectionFailed givesUp).1 (w.connectionFailed givesUp).2 [] := by
  have hearly := h.early (by
    rw [hinitiated]
    exact fun h => (nomatch h))
  unfold connectionFailed
  cases givesUp with
  | true =>
    exact .cancel ⟨h.locked, h.unlocked, h.quiet, fun _ => hearly⟩ rfl rfl rfl rfl hone
  | false =>
    exact .of_same ⟨h.locked, h.unlocked, h.quiet, fun _ => hearly⟩ rfl rfl rfl
      (fun h => (nomatch h)) rfl

theorem effect_established (h : Inv w) (hinitiated : w.connection = .initiated) :
    Effect w w.connectionEstablished.1 w.connectionEstablished.2 [] := by
  obtain ⟨hidle, _, _⟩ := h.early (by
    rw [hinitiated]
    exact fun h => (nomatch h))
  -- nothing has begun, so nothing begins before the others are told
  have hinv : Inv { w with connection := .established, connected := true, notifying := true } := by
    refine ⟨h.locked, h.unlocked, ?_, fun hnot => absurd rfl hnot⟩
    intro _ owner phase hrunning
    rw [show w.running = _ from hrunning] at hidle
    cases hidle
  have hgoes := goes_flushNext hinv .own
  have hnone := hgoes.own rfl
  refine .of_same hgoes.inv hgoes.stored hgoes.storing (congrArg _ hgoes.cache) ?_ ?_
  · intro hdone
    rw [show w.connectionEstablished.2 = none from hnone] at hdone
    cases hdone
  · exact hgoes.awaited

theorem effect_notify (h : Inv w) (hone : w.awaited ≤ 1) (hnotifying : w.notifying = true) :
    Effect w w.notify.1 w.notify.2 [] := by
  have hestablished : w.connection = .established := by
    refine Decidable.byContradiction fun hnot => ?_
    rw [(h.early hnot).2.2] at hnotifying
    cases hnotifying
  have hstoring : w.storing = [] := by
    unfold storing
    cases hrunning : w.running with
    | none => rfl
    | some r =>
      obtain ⟨owner, phase⟩ := r
      cases h.quiet hnotifying owner phase hrunning
      rfl
  have hinv : Inv { w with waiting := [], notifying := false } :=
    ⟨h.locked, h.unlocked, fun h => (nomatch h), fun hnot => absurd hestablished hnot⟩
  have hall := goAll_wake hinv hestablished w.waiting
  have hcount : w.waiting.count .journaler ≤ 1 := by
    unfold PostgresWriter.awaited at hone
    omega
  refine .of_same hall.inv hall.stored hall.storing (congrArg _ hall.cache) ?_ ?_
  · intro hdone
    have hempty : w.cache.cache = [] := hall.empty hdone
    exact ⟨(congrArg EntriesCache.cache hall.cache).trans hempty, hall.storing.trans hstoring⟩
  · refine (hall.awaited hcount).trans ?_
    unfold PostgresWriter.awaited
    simp only [List.count_nil]
    omega

theorem effect_performInserts (h : Inv w) (hrunning : w.running = some (owner, .called))
    (hnotifying : w.notifying = false) :
    Effect w (w.performInserts owner).1 (w.performInserts owner).2 [] := by
  have hestablished := h.running hrunning
  have hfetched := h.notInserting hrunning (fun h => (nomatch h))
  unfold performInserts EntriesCache.fetch
  rw [hfetched]
  cases hcache : w.cache.cache with
  | nil =>
    refine .of_same ⟨fun _ h => (nomatch h), fun _ => hfetched, ?_, fun hnot =>
      absurd hestablished hnot⟩ rfl ?_ rfl (fun h => (nomatch h)) ?_
    · intro hquiet
      rw [show w.notifying = true from hquiet] at hnotifying
      cases hnotifying
    · unfold storing
      rw [hrunning]
      rfl
    · unfold PostgresWriter.awaited
      rw [hrunning]
      rfl
  | cons entry entries =>
    simp only [List.isEmpty_cons, Bool.false_eq_true, if_false, List.take_length]
    refine .of_same ⟨fun _ _ => ⟨_, rfl, ?_⟩, fun hnot => absurd rfl (hnot owner), ?_, fun hnot =>
      absurd hestablished hnot⟩ rfl ?_ hcache.symm (fun h => (nomatch h)) ?_
    · exact Nat.le_refl _
    · intro hquiet
      rw [show w.notifying = true from hquiet] at hnotifying
      cases hnotifying
    · unfold storing
      rw [hrunning]
    · unfold PostgresWriter.awaited
      rw [hrunning]
      rfl

theorem effect_inserted (h : Inv w) (hrunning : w.running = some (owner, .inserting)) (ok : Bool) :
    Effect w (w.inserted owner ok).1 (w.inserted owner ok).2 [] := by
  have hestablished := h.running hrunning
  have hstoring : w.storing = [] := by
    unfold storing
    rw [hrunning]
  obtain ⟨n, hfetched, hle⟩ := h.locked owner hrunning
  unfold inserted
  cases ok with
  | true =>
    simp only [if_true, EntriesCache.commit, hfetched, Option.map_some, List.length_drop]
    have htake : w.cache.cache.length - (w.cache.cache.length - n) = n := by omega
    rw [htake]
    refine .of_entries ⟨fun _ h => (nomatch h), fun _ => rfl, ?_, fun hnot =>
      absurd hestablished hnot⟩ (fun _ he => he) ?_ (fun h => (nomatch h)) ?_
    · intro hquiet
      cases h.quiet hquiet owner _ hrunning
    · rw [entries, entries, hstoring, List.append_nil, List.append_assoc]
      exact congrArg _ (List.take_append_drop n _)
    · unfold PostgresWriter.awaited
      rw [hrunning]
      rfl
  | false =>
    simp only [Bool.false_eq_true, if_false, EntriesCache.rollback, hfetched, Option.map_some]
    have hfailed := Effect.failed (v := { w with cache := ⟨w.cache.cache, none⟩ }) hestablished
      hrunning rfl rfl rfl
    rw [hstoring] at hfailed
    exact hfailed

theorem effect_committed (h : Inv w) {entries : List Nat}
    (hrunning : w.running = some (owner, .committing entries)) (ok : Bool) :
    Effect w (w.committed owner entries ok).1 (w.committed owner entries ok).2
      (lostBy w (.committed ok)) := by
  have hestablished := h.running hrunning
  have hfetched := h.notInserting hrunning (fun h => (nomatch h))
  have hstoring : w.storing = entries := by
    unfold storing
    rw [hrunning]
  unfold committed
  cases ok with
  | true =>
    simp only [if_true]
    have hreleased : Inv { w with stored := w.stored ++ entries }.release :=
      inv_release hestablished hfetched
    have hgoes := goes_flushNext hreleased owner
    have hstored := hgoes.stored.trans (stored_release _)
    have hcache := hgoes.cache.trans (cache_release _)
    have hidle := hgoes.storing.trans (storing_release _)
    refine .of_entries hgoes.inv ?_ ?_ ?_ ?_
    · intro e he
      rw [hstored]
      exact List.mem_append_left _ he
    · rw [PostgresWriter.entries, hstored, hidle, hcache, PostgresWriter.entries, hstoring,
        List.append_nil]
    · intro hdone
      have hempty := hgoes.empty hdone
      rw [cache_release] at hempty
      exact ⟨(congrArg EntriesCache.cache hcache).trans hempty, hidle⟩
    · refine hgoes.awaited.trans ?_
      exact awaited_release (w := { w with stored := w.stored ++ entries }) hrunning
  | false => exact Effect.failed (v := w) hestablished hrunning rfl hfetched rfl

theorem step_effect (h : Inv w) (hone : w.awaited ≤ 1) {e : Event}
    (hstep : w.step e = some (v, outcome)) : Effect w v outcome (lostBy w e) := by
  cases e with
  | initiate =>
    simp only [step, Option.ite_none_right_eq_some, Option.some.injEq, Prod.mk.injEq] at hstep
    obtain ⟨hretrying, rfl, rfl⟩ := hstep
    have hearly := h.early (by
      rw [hretrying]
      exact fun h => (nomatch h))
    exact .of_same ⟨h.locked, h.unlocked, h.quiet, fun _ => hearly⟩ rfl rfl rfl
      (fun h => (nomatch h)) rfl
  | connectionEstablished =>
    simp only [step, Option.ite_none_right_eq_some, Option.some.injEq] at hstep
    obtain ⟨hinitiated, heq⟩ := hstep
    have heffect := effect_established h hinitiated
    rw [heq] at heffect
    exact heffect
  | connectionFailed givesUp =>
    simp only [step, Option.ite_none_right_eq_some, Option.some.injEq] at hstep
    obtain ⟨hinitiated, heq⟩ := hstep
    have heffect := effect_connectionFailed h hone hinitiated givesUp
    rw [heq] at heffect
    exact heffect
  | notify =>
    simp only [step, Option.ite_none_right_eq_some, Option.some.injEq] at hstep
    obtain ⟨hnotifying, heq⟩ := hstep
    have heffect := effect_notify h hone hnotifying
    rw [heq] at heffect
    exact heffect
  | closed =>
    simp only [step, Option.ite_none_left_eq_some, Option.some.injEq] at hstep
    obtain ⟨_, heq⟩ := hstep
    cases heq
    refine .cancel ⟨h.locked, h.unlocked, h.quiet, fun hnot => ?_⟩ rfl rfl rfl rfl hone
    obtain ⟨hidle, _, hquiet⟩ := h.early hnot
    exact ⟨hidle, rfl, hquiet⟩
  | notRun =>
    cases hrunning : w.running with
    | none => simp only [step, hrunning, reduceCtorEq] at hstep
    | some r =>
      obtain ⟨owner, phase⟩ := r
      cases phase <;> simp only [step, hrunning, reduceCtorEq, Option.some.injEq] at hstep
      have hfetched := h.notInserting hrunning (fun h => (nomatch h))
      have hstoring : w.storing = [] := by
        unfold storing
        rw [hrunning]
      have heffect := Effect.failed (v := w) (h.running hrunning) hrunning rfl hfetched rfl
      rw [hstep, hstoring] at heffect
      exact heffect
  | performInserts =>
    cases hrunning : w.running with
    | none => simp only [step, hrunning, reduceCtorEq] at hstep
    | some r =>
      obtain ⟨owner, phase⟩ := r
      cases phase <;> simp only [step, hrunning, reduceCtorEq, Option.ite_none_left_eq_some,
        Option.some.injEq, Bool.not_eq_true] at hstep
      obtain ⟨hnotifying, heq⟩ := hstep
      have heffect := effect_performInserts h hrunning hnotifying
      rw [heq] at heffect
      exact heffect
  | inserted ok =>
    cases hrunning : w.running with
    | none => simp only [step, hrunning, reduceCtorEq] at hstep
    | some r =>
      obtain ⟨owner, phase⟩ := r
      cases phase <;> simp only [step, hrunning, reduceCtorEq, Option.some.injEq] at hstep
      have heffect := effect_inserted h hrunning ok
      rw [hstep] at heffect
      exact heffect
  | committed ok =>
    cases hrunning : w.running with
    | none => simp only [step, hrunning, reduceCtorEq] at hstep
    | some r =>
      obtain ⟨owner, phase⟩ := r
      cases phase <;> simp only [step, hrunning, reduceCtorEq, Option.some.injEq] at hstep
      have heffect := effect_committed h hrunning ok
      rw [hstep] at heffect
      exact heffect

/-- What follows moves no entry. -/
theorem Effect.then_same {u : PostgresWriter} (h : Effect w v outcome lost)
    (hnot : outcome ≠ some true) (hinv : Inv u) (hstored : u.stored = v.stored)
    (hstoring : u.storing = v.storing) (hcache : u.cache.cache = v.cache.cache)
    (hawaited : u.awaited = v.awaited) : Effect w u outcome lost := by
  have hsame : u.entries = v.entries := by
    unfold entries
    rw [hstored, hstoring, hcache]
  exact ⟨hinv, fun e he => hstored ▸ h.stored e he, hsame ▸ h.sublist, fun e he =>
    hsame ▸ h.kept e he, fun hdone => absurd hdone hnot, hawaited ▸ h.awaited⟩

theorem cancel_ne (w : PostgresWriter) : w.cancel.2 ≠ some true := by
  unfold cancel
  split <;> exact fun h => (nomatch h)

theorem cancelInitiate_ne (w : PostgresWriter) : w.cancelInitiate.2 ≠ some true := by
  unfold cancelInitiate
  split
  · exact cancel_ne _
  · exact fun h => (nomatch h)

/-- A writer is closed: nobody is told that anything has succeeded. -/
theorem effect_close (h : Inv w) (hone : w.awaited ≤ 1) (flush : Bool) :
    Effect w (w.close flush).1 (w.close flush).2 [] ∧ (w.close flush).2 ≠ some true := by
  have hcancel : Effect w w.cancelInitiate.1 w.cancelInitiate.2 [] := by
    unfold cancelInitiate
    split
    · rename_i hinitiated
      exact effect_connectionFailed h hone hinitiated true
    · exact .of_same h rfl rfl rfl (fun h => (nomatch h)) rfl
  have hne := cancelInitiate_ne w
  refine ⟨?_, hne⟩
  unfold close
  dsimp only
  split
  · have hgoes := goes_flushNext hcancel.inv .own
    have hawaited := hgoes.awaited
    rw [hgoes.own rfl] at hawaited
    have hinv := hgoes.inv
    exact hcancel.then_same hne ⟨hinv.locked, hinv.unlocked, hinv.quiet, hinv.early⟩ hgoes.stored
      hgoes.storing (congrArg _ hgoes.cache) hawaited
  · have hinv := hcancel.inv
    exact hcancel.then_same hne ⟨hinv.locked, hinv.unlocked, hinv.quiet, hinv.early⟩ rfl rfl rfl rfl

/-- Entries are handed to a writer. -/
theorem insertEntries_spec (h : Inv w) {entries : List Nat} (hsome : entries ≠ []) :
    Inv (w.insertEntries entries).1 ∧
      (w.insertEntries entries).1.stored = w.stored ∧
      (w.insertEntries entries).1.entries = w.entries ++ entries ∧
      (w.insertEntries entries).2 ≠ some true ∧
      (w.insertEntries entries).1.awaited +
        (if (w.insertEntries entries).2.isSome then 1 else 0) = w.awaited + 1 := by
  unfold insertEntries
  rw [CacheUse.foldl_append]
  have hinv : Inv { w with cache := { w.cache with cache := w.cache.cache ++ entries } } := by
    refine ⟨?_, h.unlocked, h.quiet, h.early⟩
    intro owner hrunning
    obtain ⟨n, hfetched, hle⟩ := h.locked owner hrunning
    refine ⟨n, hfetched, Nat.le_trans hle ?_⟩
    rw [List.length_append]
    exact Nat.le_add_right _ _
  have hgoes := goes_flushNext hinv .journaler
  refine ⟨hgoes.inv, hgoes.stored, ?_, ?_, hgoes.awaited⟩
  · rw [PostgresWriter.entries, hgoes.stored, hgoes.storing, hgoes.cache]
    exact (List.append_assoc _ _ _).symm
  · intro hdone
    exact hsome (List.append_eq_nil_iff.mp (hgoes.empty hdone)).2

/-! ### The step that completes a flush -/

/-- With this step the chain that the journaler waits for finds the cache empty. -/
def Completes (w : PostgresWriter) : Event → Prop
  | .notify => .journaler ∈ w.waiting ∧ w.cache.cache = []
  | .committed true =>
    w.running.map Prod.fst = some .journaler ∧ w.connected = true ∧ w.cache.cache = []
  | _ => False

instance (w : PostgresWriter) : (e : Event) → Decidable (w.Completes e)
  | .notify => inferInstanceAs (Decidable (_ ∈ _ ∧ _ = _))
  | .committed true => inferInstanceAs (Decidable (_ = _ ∧ _ = _ ∧ _ = _))
  | .committed false | .initiate | .connectionEstablished | .connectionFailed _ | .closed | .notRun
  | .performInserts | .inserted _ => inferInstanceAs (Decidable False)

theorem flushNext_completes (h : (w.flushNext owner).2 = some true) :
    owner = .journaler ∧ w.connected = true ∧ w.cache.cache = [] := by
  unfold flushNext at h
  split at h
  · rename_i hconnected
    unfold flushBody at h
    split at h
    · rename_i hempty
      cases owner <;> cases h
      exact ⟨rfl, hconnected, List.isEmpty_iff.mp hempty⟩
    · split at h
      · cases h
      · cases owner <;> cases h
  · cases h

theorem fired_ne (w : PostgresWriter) (owner : Owner) : (w.fired owner false).2 ≠ some true := by
  cases owner <;> exact fun h => (nomatch h)

/-- The step that tells the journaler that its chain succeeded. -/
theorem step_completes (h : Inv w) {e : Event} (hstep : w.step e = some (v, some true)) :
    w.Completes e := by
  cases e with
  | initiate => simp [step] at hstep
  | connectionEstablished =>
    simp only [step, Option.ite_none_right_eq_some, Option.some.injEq] at hstep
    obtain ⟨_, heq⟩ := hstep
    obtain ⟨hjournaler, _⟩ := flushNext_completes (congrArg Prod.snd heq)
    cases hjournaler
  | connectionFailed givesUp =>
    simp only [step, Option.ite_none_right_eq_some, Option.some.injEq] at hstep
    obtain ⟨_, heq⟩ := hstep
    cases givesUp with
    | true => exact absurd (congrArg Prod.snd heq) (cancel_ne _)
    | false => cases congrArg Prod.snd heq
  | notify =>
    simp only [step, Option.ite_none_right_eq_some, Option.some.injEq] at hstep
    obtain ⟨hnotifying, heq⟩ := hstep
    have hestablished : w.connection = .established := by
      refine Decidable.byContradiction fun hnot => ?_
      rw [(h.early hnot).2.2] at hnotifying
      cases hnotifying
    have hinv : Inv { w with waiting := [], notifying := false } :=
      ⟨h.locked, h.unlocked, fun h => (nomatch h), fun hnot => absurd hestablished hnot⟩
    have hall := goAll_wake hinv hestablished w.waiting
    have hdone : w.notify.2 = some true := congrArg Prod.snd heq
    refine ⟨Decidable.byContradiction fun hnot => ?_, hall.empty hdone⟩
    rw [show w.notify.2 = none from hall.own hnot] at hdone
    cases hdone
  | closed =>
    simp only [step, Option.ite_none_left_eq_some, Option.some.injEq] at hstep
    obtain ⟨_, heq⟩ := hstep
    exact absurd (congrArg Prod.snd heq) (cancel_ne _)
  | notRun =>
    cases hrunning : w.running with
    | none => simp only [step, hrunning, reduceCtorEq] at hstep
    | some r =>
      obtain ⟨owner, phase⟩ := r
      cases phase <;> simp only [step, hrunning, reduceCtorEq, Option.some.injEq] at hstep
      exact absurd (congrArg Prod.snd hstep) (fired_ne _ _)
  | performInserts =>
    cases hrunning : w.running with
    | none => simp only [step, hrunning, reduceCtorEq] at hstep
    | some r =>
      obtain ⟨owner, phase⟩ := r
      cases phase <;> simp only [step, hrunning, reduceCtorEq, Option.ite_none_left_eq_some,
        Option.some.injEq] at hstep
      obtain ⟨_, heq⟩ := hstep
      unfold performInserts at heq
      split at heq
      · exact absurd (congrArg Prod.snd heq) (fired_ne _ _)
      · cases congrArg Prod.snd heq
      · cases congrArg Prod.snd heq
  | inserted ok =>
    cases hrunning : w.running with
    | none => simp only [step, hrunning, reduceCtorEq] at hstep
    | some r =>
      obtain ⟨owner, phase⟩ := r
      cases phase <;> simp only [step, hrunning, reduceCtorEq, Option.some.injEq] at hstep
      unfold inserted at hstep
      split at hstep
      · split at hstep
        · exact absurd (congrArg Prod.snd hstep) (fired_ne _ _)
        · cases congrArg Prod.snd hstep
      · split at hstep
        · exact absurd (congrArg Prod.snd hstep) (fired_ne _ _)
        · exact absurd (congrArg Prod.snd hstep) (fired_ne _ _)
  | committed ok =>
    cases hrunning : w.running with
    | none => simp only [step, hrunning, reduceCtorEq] at hstep
    | some r =>
      obtain ⟨owner, phase⟩ := r
      cases phase <;> simp only [step, hrunning, reduceCtorEq, Option.some.injEq] at hstep
      cases ok with
      | true =>
        obtain ⟨rfl, hconnected, hempty⟩ := flushNext_completes (congrArg Prod.snd hstep)
        rw [cache_release] at hempty
        refine ⟨by rw [hrunning]; rfl, ?_, hempty⟩
        unfold release at hconnected
        split at hconnected <;> exact hconnected
      | false => exact absurd (congrArg Prod.snd hstep) (fired_ne _ _)

/-- A COMMIT that fails without the journaler being told is not that of its own flush. -/
theorem lost_own {e : Event} (hstep : w.step e = some (v, outcome)) (hnot : outcome ≠ some false)
    (hlost : w.lostBy e ≠ []) : w.running.map Prod.fst = some .own := by
  cases e with
  | committed ok =>
    cases ok with
    | true => exact absurd rfl hlost
    | false =>
      cases hrunning : w.running with
      | none => simp only [step, hrunning, reduceCtorEq] at hstep
      | some r =>
        obtain ⟨owner, phase⟩ := r
        cases phase <;> simp only [step, hrunning, reduceCtorEq, Option.some.injEq] at hstep
        cases owner with
        | own => rfl
        | journaler => exact absurd (congrArg Prod.snd hstep).symm hnot
  | _ => exact absurd rfl hlost

theorem inv_initiated : Inv new.initiate :=
  ⟨fun _ h => (nomatch h), fun _ => rfl, fun h => (nomatch h), fun _ => ⟨rfl, rfl, rfl⟩⟩

end PostgresWriter
end Feat.Agencies.Journaling
