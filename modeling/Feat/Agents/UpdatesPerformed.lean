import Mathlib.Data.List.Infix
import Feat.Agents.PersistentUpdater

/- Queued updates are performed exactly once and in order, as long as nothing fails in a
   way the updater does not know.

   The loop is at any time in one `Stage`, which fixes the flag, the entries that were
   handed out, what is in flight and how far the commits are ahead of the waiters. Every
   step whose handlers return, resign or delete what there is, whose calls to the cache
   conflict or find no document any number of times, and whose removals are saved leads
   from stage to stage, so every run of such steps performs the updates
   (`performed_once`).

   A handler that raises stops the loop and leaves its entry handed out for ever, with
   its waiter and those of the entries behind it; a removal that conflicts is taken for a
   conflict of the document, and the operation is committed again (`stopped_or_repeated`). -/
namespace Feat.Agents.PersistentUpdater
open Transition

variable {Doc : Type}

namespace State

/-! ## The stages of the loop -/

/-- Where the loop is: not running, about to take an entry, at work on one with what it committed
already, waiting for the cache, or waiting for an entry to be removed. -/
inductive Stage (Doc : Type) where
  | idle
  | scheduled
  | taken (item : Nat) (ahead : List (Nat × Effect Doc))
  | calling (chain : Chain Doc)
  | confirming (item : Nat) (called : Bool)

def chainItem : Chain Doc → Nat
  | .calling item _ => item
  | .answered item _ _ => item
  | .refreshing item => item

/-- A chain was not refused in a way that it does not handle. -/
def chainSound : Chain Doc → Prop
  | .answered _ _ answer => answer.Handled
  | _ => True

/-- What a chain committed before its waiter is fired. -/
def chainCommit : Chain Doc → List (Nat × Effect Doc)
  | .answered item effect .done => [(item, effect)]
  | _ => []

theorem chainCommit_sublist (chain : Chain Doc) :
    ((chainCommit chain).map Prod.fst).Sublist [chainItem chain] := by
  unfold chainCommit
  split
  · exact List.Sublist.refl _
  · exact List.nil_sublist _

namespace Stage

def working : Stage Doc → Bool
  | .idle => false
  | _ => true

def due : Stage Doc → Nat
  | .scheduled => 1
  | _ => 0

def chains : Stage Doc → List (Chain Doc)
  | .calling chain => [chain]
  | _ => []

def handedOut : Stage Doc → List Nat
  | .taken item _ => [item]
  | .calling chain => [chainItem chain]
  | _ => []

def removals : Stage Doc → List (Nat × Bool)
  | .confirming item called => [(item, called)]
  | _ => []

def ahead : Stage Doc → List (Nat × Effect Doc)
  | .taken _ ahead => ahead
  | .calling chain => chainCommit chain
  | _ => []

/-- What the waiters must be, those that are waiting and those that were fired. -/
def Fits : Stage Doc → List Nat → List (Nat × Result Doc) → Prop
  | .taken item ahead, waiting, _ =>
    waiting.head? = some item ∧ (ahead.map Prod.fst).Sublist [item]
  | .calling chain, waiting, _ => waiting.head? = some (chainItem chain) ∧ chainSound chain
  | .confirming item _, _, fired => item ∈ fired.map Prod.fst
  | _, _, _ => True

/-- The stages the loop is in between two events. -/
def Rests : Stage Doc → List Nat → Prop
  | .idle, waiting => waiting = []
  | .taken _ _, _ => False
  | _, _ => True

end Stage

def appends (updates : List Update) : List Nat :=
  updates.filterMap fun | .append item => some item | .remove _ _ => none

def removals (updates : List Update) : List (Nat × Bool) :=
  updates.filterMap fun | .append _ => none | .remove item called => some (item, called)

/-- The state of an updater whose loop is in a stage. -/
structure At (stage : Stage Doc) (s : State Doc) : Prop where
  working : s.working = stage.working
  scheduled : s.scheduled = stage.due
  chains : s.chains = stage.chains
  prefetched : s.prefetched = stage.handedOut
  removals : removals s.updates = stage.removals
  entries : s.entries = stage.removals.map Prod.fst ++ s.waiting
  enqueued : s.enqueued = s.fired.map Prod.fst ++ s.waiting
  commits : s.commits = s.reported ++ stage.ahead
  fits : stage.Fits s.waiting s.fired
  ordered : (s.enqueued ++ appends s.updates).Pairwise (· < ·)
  issued : ∀ item ∈ s.enqueued ++ appends s.updates, item < s.issued

variable {s : State Doc} {stage : Stage Doc} {item : Nat}

/-- The loop does not rest while there is something to do. -/
def Settled (s : State Doc) : Prop := ∃ stage, At stage s ∧ stage.Rests s.waiting

theorem settled_start : Settled (start : State Doc) :=
  ⟨.idle, ⟨rfl, rfl, rfl, rfl, rfl, rfl, rfl, rfl, trivial, .nil, fun _ h => nomatch h⟩, rfl⟩

/-! ## The queue of updates of the descriptor -/

theorem At.update (h : At stage s) :
    At stage { s with issued := s.issued + 1, updates := s.updates ++ [.append s.issued] } := by
  have happends : appends (s.updates ++ [.append s.issued]) = appends s.updates ++ [s.issued] :=
    List.filterMap_append
  have hremovals : State.removals (s.updates ++ [.append s.issued]) = State.removals s.updates :=
    List.filterMap_append.trans (List.append_nil _)
  refine ⟨h.working, h.scheduled, h.chains, h.prefetched, hremovals.trans h.removals, h.entries,
    h.enqueued, h.commits, h.fits, ?_, fun item hitem => ?_⟩
  · rw [happends, ← List.append_assoc]
    refine List.pairwise_append.mpr ⟨h.ordered, List.pairwise_singleton _ _, fun a ha b hb => ?_⟩
    rw [List.mem_singleton.mp hb]
    exact h.issued a ha
  · rw [happends, ← List.append_assoc] at hitem
    rcases List.mem_append.mp hitem with hold | hnew
    · exact Nat.lt_succ_of_lt (h.issued item hold)
    · rw [List.mem_singleton.mp hnew]
      exact Nat.lt_succ_self _

/-- An entry that is appended is waited for. -/
theorem At.append {rest : List Update} (h : At stage s) (hu : s.updates = .append item :: rest) :
    At stage { s with
      updates := rest
      entries := s.entries ++ [item]
      enqueued := s.enqueued ++ [item]
      waiting := s.waiting ++ [item] } := by
  have happends : appends s.updates = item :: appends rest := by
    rw [hu]
    rfl
  have hremovals : State.removals s.updates = State.removals rest := by
    rw [hu]
    rfl
  have hqueue : s.enqueued ++ [item] ++ appends rest = s.enqueued ++ appends s.updates := by
    rw [happends, List.append_assoc]
    rfl
  have hhead : ∀ {i}, s.waiting.head? = some i → (s.waiting ++ [item]).head? = some i := by
    intro i hi
    rw [List.head?_append, hi]
    rfl
  refine ⟨h.working, h.scheduled, h.chains, h.prefetched, hremovals.symm.trans h.removals, ?_, ?_,
    h.commits, ?_, ?_, ?_⟩
  · rw [h.entries, List.append_assoc]
  · rw [h.enqueued, List.append_assoc]
  · have hfits := h.fits
    cases stage with
    | idle | scheduled => trivial
    | taken _ _ | calling _ => exact ⟨hhead hfits.1, hfits.2⟩
    | confirming _ _ => exact hfits
  · rw [hqueue]
    exact h.ordered
  · rw [hqueue]
    exact h.issued

/-- An entry that is not appended is not waited for. -/
theorem At.appendFails {rest : List Update} (h : At stage s)
    (hu : s.updates = .append item :: rest) : At stage { s with updates := rest } := by
  have hsub : (s.enqueued ++ appends rest).Sublist (s.enqueued ++ appends s.updates) := by
    refine List.Sublist.append (List.Sublist.refl _) ?_
    rw [hu]
    exact List.sublist_cons_self _ _
  refine ⟨h.working, h.scheduled, h.chains, h.prefetched, ?_, h.entries, h.enqueued, h.commits,
    h.fits, h.ordered.sublist hsub, fun i hi => h.issued i (hsub.subset hi)⟩
  rw [← h.removals, hu]
  rfl

/-- An update that removes an entry is the only one, and the loop waits for it. -/
theorem At.removing {rest : List Update} {called : Bool} (h : At stage s)
    (hu : s.updates = .remove item called :: rest) :
    stage = .confirming item called ∧ State.removals rest = [] := by
  have hr := h.removals
  rw [hu] at hr
  cases stage with
  | idle | scheduled | taken _ _ | calling _ => cases hr
  | confirming _ _ =>
    obtain ⟨hhead, htail⟩ := List.cons.inj hr
    cases hhead
    exact ⟨rfl, htail⟩

/-! ## The loop -/

/-- A chain that ends starts the loop again. -/
theorem At.startup (h : At stage s) (hbusy : stage = .idle ∨ stage.Rests s.waiting) :
    Settled s.startup := by
  unfold State.startup
  cases stage with
  | idle =>
    rw [h.working, if_neg (by exact Bool.false_ne_true)]
    exact ⟨.scheduled, ⟨rfl, congrArg (· + 1) h.scheduled, h.chains, h.prefetched, h.removals,
      h.entries, h.enqueued, h.commits, trivial, h.ordered, h.issued⟩, trivial⟩
  | taken _ _ => exact (hbusy.resolve_left fun he => nomatch he).elim
  | scheduled | calling _ | confirming _ _ =>
    rw [h.working, if_pos (by rfl)]
    exact ⟨_, h, trivial⟩

/-- The waiters are registered after `startup`. -/
theorem startup_waiting (s : State Doc) (item : Nat) :
    { s.startup with waiting := s.startup.waiting ++ [item] } =
      startup { s with waiting := s.waiting ++ [item] } := by
  unfold State.startup
  split <;> rfl

/-- The entry that is removed is the one that was confirmed. -/
theorem At.removed {rest : List Update} {called : Bool}
    (h : At (.confirming item called) s) (hu : s.updates = .remove item called :: rest)
    (hrest : State.removals rest = []) :
    Settled (finish { s with updates := rest, entries := s.entries.filter (· ≠ item) }) := by
  have happends : appends s.updates = appends rest := by
    rw [hu]
    rfl
  have hnotin : item ∉ s.waiting := by
    intro hmem
    have hnodup := (List.pairwise_append.mp h.ordered).1
    rw [h.enqueued] at hnodup
    exact Nat.lt_irrefl item ((List.pairwise_append.mp hnodup).2.2 item h.fits item hmem)
  have hentries : s.entries.filter (· ≠ item) = s.waiting := by
    rw [h.entries]
    refine (List.filter_cons_of_neg (by simp)).trans (List.filter_eq_self.mpr fun i hi => ?_)
    exact decide_eq_true fun he => hnotin (he ▸ hi)
  have hidle : At .idle { s with
      updates := rest
      entries := s.entries.filter (· ≠ item)
      working := false } := by
    refine ⟨rfl, h.scheduled, h.chains, h.prefetched, hrest, hentries, h.enqueued, h.commits,
      trivial, ?_, ?_⟩
    · rw [← happends]
      exact h.ordered
    · rw [← happends]
      exact h.issued
  exact hidle.startup (.inl rfl)

/-- The loop takes the entry that is waited for longest. -/
theorem At.take {rest : List Nat} (h : At .scheduled s) (hw : s.waiting = item :: rest) :
    s.next = some item ∧
      At (.taken item []) { s with scheduled := 0, prefetched := s.prefetched ++ [item] } := by
  refine ⟨?_, ⟨h.working, rfl, h.chains, ?_, h.removals, h.entries, h.enqueued, h.commits, ?_,
    h.ordered, h.issued⟩⟩
  · unfold State.next
    rw [h.prefetched, h.entries, hw]
    rfl
  · rw [h.prefetched]
    rfl
  · exact ⟨congrArg List.head? hw, List.nil_sublist _⟩

theorem At.rest (h : At .scheduled s) (hw : s.waiting = []) :
    s.next = none ∧ At .idle { s with scheduled := 0, working := false } := by
  refine ⟨?_, ⟨rfl, rfl, h.chains, h.prefetched, h.removals, h.entries, h.enqueued, h.commits,
    trivial, h.ordered, h.issued⟩⟩
  unfold State.next
  rw [h.entries, hw]
  rfl

/-- The loop waits for the cache. -/
theorem At.wait (h : At (.taken item []) s) (chain : Chain Doc) (hitem : chainItem chain = item)
    (hcommit : chainCommit chain = []) (hsound : chainSound chain) :
    At (.calling chain) (s.wait chain) := by
  subst hitem
  refine ⟨h.working, h.scheduled, ?_, h.prefetched, h.removals, h.entries, h.enqueued, ?_,
    ⟨h.fits.1, hsound⟩, h.ordered, h.issued⟩
  · exact congrArg (· ++ [chain]) h.chains
  · exact h.commits.trans (congrArg (s.reported ++ ·) hcommit.symm)

/-- A chain that is called back is at work on its entry. -/
theorem At.calledBack {chain : Chain Doc} {i : Nat} (h : At stage s)
    (hi : s.chains[i]? = some chain) :
    stage = .calling chain ∧ At (.taken (chainItem chain) (chainCommit chain))
      { s with chains := s.chains.eraseIdx i } := by
  have hchains := h.chains
  rw [hchains] at hi
  cases stage with
  | idle | scheduled | taken _ _ | confirming _ _ => cases hi
  | calling c =>
    cases i with
    | succ i => cases hi
    | zero =>
      cases hi
      refine ⟨rfl, h.working, h.scheduled, ?_, h.prefetched, h.removals, h.entries, h.enqueued,
        h.commits, ⟨h.fits.1, ?_⟩, h.ordered, h.issued⟩
      · dsimp only
        rw [hchains]
        rfl
      · exact chainCommit_sublist chain

/-- The database answers a call of the loop. -/
theorem At.served {effect : Effect Doc} {answer : Answer} {i : Nat} (h : At stage s)
    (hi : s.chains[i]? = some (.calling item effect))
    (hsound : answer.Handled) :
    At (.calling (.answered item effect answer))
      { s with
        chains := s.chains.set i (.answered item effect answer)
        commits := if answer.committed then s.commits ++ [(item, effect)] else s.commits } := by
  obtain ⟨rfl, -⟩ := h.calledBack hi
  have hchains := h.chains
  rw [hchains] at hi
  cases i with
  | succ i => cases hi
  | zero =>
    have hcommits : s.commits = s.reported := h.commits.trans (List.append_nil _)
    refine ⟨h.working, h.scheduled, ?_, h.prefetched, h.removals, h.entries, h.enqueued, ?_,
      ⟨h.fits.1, hsound⟩, h.ordered, h.issued⟩
    · dsimp only
      rw [hchains]
      rfl
    · cases answer with
      | done => exact congrArg (· ++ [(item, effect)]) hcommits
      | fails error committed =>
        obtain ⟨-, rfl⟩ := hsound
        exact h.commits

theorem reported_fired (s : State Doc) (item : Nat) (result : Result Doc) :
    reported { s with fired := s.fired ++ [(item, result)] } =
      s.reported ++ (result.effect.map (item, ·)).toList := by
  unfold reported
  rw [List.filterMap_append]
  refine congrArg (s.reported ++ ·) ?_
  cases result with
  | performed effect => rfl
  | resigned => rfl

/-- The waiter is fired and its entry is about to be removed. -/
theorem At.updateCallback {ahead : List (Nat × Effect Doc)}
    (h : At (.taken item ahead) s) (result : Result Doc) (called : Bool)
    (hahead : ahead = (result.effect.map (item, ·)).toList) :
    At (.confirming item called) (s.updateCallback item result called) := by
  obtain ⟨rest, hw⟩ : ∃ rest, s.waiting = item :: rest := List.head?_eq_some_iff.mp h.fits.1
  have hcallback : s.callback item result =
      { s with waiting := rest, fired := s.fired ++ [(item, result)] } := by
    unfold State.callback
    rw [hw, if_pos List.mem_cons_self, List.erase_cons_head]
  have happends : appends (s.updates ++ [.remove item called]) = appends s.updates :=
    List.filterMap_append.trans (List.append_nil _)
  have hreported := (reported_fired s item result).trans (congrArg (s.reported ++ ·) hahead.symm)
  unfold State.updateCallback State.onConfirm
  rw [hcallback]
  refine ⟨h.working, h.scheduled, h.chains, ?_, ?_, ?_, ?_, ?_, ?_, ?_, ?_⟩
  · dsimp only
    rw [h.prefetched]
    exact List.erase_cons_head item []
  · refine List.filterMap_append.trans ?_
    exact congrArg (· ++ [(item, called)]) h.removals
  · exact h.entries.trans hw
  · dsimp only
    rw [h.enqueued, hw, List.map_append, List.append_assoc]
    rfl
  · refine h.commits.trans (Eq.trans ?_ (List.append_nil _).symm)
    exact hreported.symm
  · refine List.mem_map_of_mem (List.mem_append_right s.fired (List.mem_singleton_self _))
  · dsimp only
    rw [happends]
    exact h.ordered
  · dsimp only
    rw [happends]
    exact h.issued

/-! ## What handlers and the cache lead to -/

theorem At.updateErrback {error : Error} (h : At (.taken item []) s) (herror : error ≠ .other) :
    Settled (s.updateErrback item error) := by
  have hwait := h.wait (.refreshing item) rfl rfl trivial
  cases error with
  | conflict | notFound => exact ⟨_, hwait, trivial⟩
  | other => exact absurd rfl herror

theorem At.getDocumentCallback {found : Bool} {verdict : Verdict Doc} (h : At (.taken item []) s)
    (hsound : Sound found verdict) : Settled (s.getDocumentCallback item found verdict) := by
  cases verdict with
  | returns doc => exact ⟨_, h.wait (.calling item (.saved doc)) rfl rfl trivial, trivial⟩
  | deletes =>
    unfold State.getDocumentCallback
    dsimp only
    rw [if_pos (hsound.2 rfl)]
    exact ⟨_, h.wait (.calling item .deleted) rfl rfl trivial, trivial⟩
  | resigns => exact ⟨_, h.updateCallback .resigned false rfl, trivial⟩
  | raises => exact absurd rfl hsound.1

/-- `_startup`: an entry is taken, or there is none. -/
theorem At.processNext {found : Bool} {verdict : Verdict Doc} (h : At .scheduled s)
    (hsound : s.next ≠ none → Sound found verdict) :
    Settled (processNext { s with scheduled := 0 } found verdict) := by
  have hnext : State.next { s with scheduled := 0 } = s.next := rfl
  unfold State.processNext
  rw [hnext]
  by_cases hw : s.waiting = []
  · obtain ⟨hnone, hidle⟩ := h.rest hw
    rw [hnone]
    exact ⟨.idle, hidle, hw⟩
  · obtain ⟨item, rest, hw⟩ := List.exists_cons_of_ne_nil hw
    obtain ⟨hsome, htaken⟩ := h.take hw
    rw [hsome]
    exact htaken.getDocumentCallback (hsound (by rw [hsome]; exact Option.some_ne_none item))

/-! ## One step -/

/-- What a smooth step preserves. -/
theorem Settled.step {t : State Doc} {e : Event Doc} (h : Settled s) (hsmooth : Smooth s e)
    (hstep : s.step e = some t) : Settled t := by
  obtain ⟨stage, hat, hrest⟩ := h
  cases e with
  | update =>
    cases hstep
    exact ⟨stage, hat.update, hrest⟩
  | startup =>
    cases hstep
    exact hat.startup (.inr hrest)
  | updated =>
    unfold State.step at hstep
    dsimp only at hstep
    split at hstep
    · cases hstep
    · rename_i item rest hu
      cases hstep
      rw [startup_waiting]
      refine (hat.append hu).startup ?_
      cases stage with
      | idle => exact .inl rfl
      | scheduled | calling _ | confirming _ _ => exact .inr trivial
      | taken _ _ => exact hrest.elim
    · rename_i item called rest hu
      cases hstep
      obtain ⟨rfl, hnone⟩ := hat.removing hu
      exact hat.removed hu hnone
  | updateFails error =>
    unfold State.step at hstep
    dsimp only at hstep
    split at hstep
    · cases hstep
    · rename_i item rest hu
      cases hstep
      exact ⟨stage, hat.appendFails hu, hrest⟩
    · rename_i item called rest hu
      unfold Smooth at hsmooth
      rw [hu] at hsmooth
      exact hsmooth.elim
  | call found verdict =>
    unfold State.step at hstep
    dsimp only at hstep
    split at hstep
    · cases hstep
    · rename_i n hn
      cases hstep
      have hdue := hat.scheduled.symm.trans hn
      cases stage with
      | idle | taken _ _ | calling _ | confirming _ _ => cases hdue
      | scheduled =>
        cases hdue
        exact hat.processNext hsmooth
  | serve i answer =>
    unfold State.step at hstep
    dsimp only at hstep
    split at hstep
    · rename_i item effect hi
      cases hstep
      exact ⟨_, hat.served hi hsmooth, trivial⟩
    · cases hstep
  | respond i =>
    unfold State.step at hstep
    dsimp only at hstep
    split at hstep
    · rename_i item effect answer hi
      obtain ⟨rfl, htaken⟩ := hat.calledBack hi
      cases answer with
      | done =>
        cases hstep
        exact ⟨_, htaken.updateCallback (.performed effect) true rfl, trivial⟩
      | fails error committed =>
        cases hstep
        exact htaken.updateErrback hat.fits.2.1
    · cases hstep
  | refreshed i found verdict =>
    unfold State.step at hstep
    dsimp only at hstep
    split at hstep
    · rename_i item hi
      cases hstep
      exact (hat.calledBack hi).2.getDocumentCallback hsmooth
    · cases hstep
  | refreshFails i => exact hsmooth.elim

/-! ## Whole runs -/

/-- What is reported is an effect of a waiter that was fired. -/
theorem reported_sublist (s : State Doc) :
    (s.reported.map Prod.fst).Sublist (s.fired.map Prod.fst) := by
  unfold reported
  generalize s.fired = fired
  induction fired with
  | nil => exact List.Sublist.refl _
  | cons f fired ih =>
    obtain ⟨item, result⟩ := f
    cases result with
    | performed effect => exact ih.cons_cons item
    | resigned => exact ih.cons item

/-- Only the entry that is waited for longest may be committed and not reported. -/
theorem At.ahead_sublist (h : At stage s) : (stage.ahead.map Prod.fst).Sublist s.waiting := by
  have hfirst : ∀ {item}, s.waiting.head? = some item → [item].Sublist s.waiting := by
    intro item hhead
    exact List.singleton_sublist.mpr (List.mem_of_head? hhead)
  have hfits := h.fits
  cases stage with
  | idle | scheduled | confirming _ _ => exact List.nil_sublist _
  | taken item ahead => exact hfits.2.trans (hfirst hfits.1)
  | calling chain => exact (chainCommit_sublist chain).trans (hfirst hfits.1)

theorem Settled.performed (h : Settled s) : Performed s := by
  obtain ⟨stage, hat, hrest⟩ := h
  refine ⟨?_, ?_, ⟨_, hat.enqueued.symm⟩, ⟨_, hat.commits.symm⟩, fun item hitem hgone => ?_,
    fun ⟨hupdates, hdue, hchains⟩ => ?_⟩
  · exact (List.pairwise_append.mp hat.ordered).1
  · rw [hat.commits, hat.enqueued, List.map_append]
    exact s.reported_sublist.append hat.ahead_sublist
  · rw [hat.enqueued] at hitem
    refine (List.mem_append.mp hitem).resolve_right fun hwaiting => hgone ?_
    rw [hat.entries]
    exact List.mem_append_right _ hwaiting
  · cases stage with
    | idle =>
      have hw : s.waiting = [] := hrest
      refine ⟨?_, ?_, ?_⟩
      · rw [hat.enqueued, hw, List.append_nil]
      · rw [hat.commits]
        exact (List.append_nil _).symm
      · rw [hat.entries, hw]
        rfl
    | scheduled => cases hdue.symm.trans hat.scheduled
    | taken _ _ => exact hrest.elim
    | calling _ => cases hchains.symm.trans hat.chains
    | confirming _ _ =>
      have hremovals := hat.removals
      rw [hupdates] at hremovals
      cases hremovals

/-- In a run of smooth steps every update is performed once and in order. -/
theorem performed_once {es : List (Event Doc)} {t : State Doc}
    (h : Run (Guarded Smooth (Defined step)) start es t) : Performed t := by
  have hkeep : ∀ s (e : Event Doc) t, Settled s → Guarded Smooth (Defined step) s e t →
      Settled t := fun _ _ _ hs hstep => hs.step hstep.1 hstep.2
  exact (h.preserves hkeep settled_start).performed

instance : ∀ answer : Answer, Decidable answer.Handled
  | .done => .isTrue trivial
  | .fails _ _ => inferInstanceAs (Decidable (_ ∧ _))

instance [DecidableEq Doc] (found : Bool) (verdict : Verdict Doc) :
    Decidable (Sound found verdict) := inferInstanceAs (Decidable (_ ∧ (_ → _)))

instance [DecidableEq Doc] (s : State Doc) : ∀ e, Decidable (Smooth s e) := by
  intro e
  unfold Smooth
  split
  case h_5 => split <;> infer_instance
  all_goals infer_instance

/-- A save that conflicts once, a deletion and a handler that resigns. -/
theorem performed_three : ∃ t : State Nat, t.Quiet ∧
    t.fired = [(0, .performed (.saved 6)), (1, .performed .deleted), (2, .resigned)] ∧
      Performed t := by
  have hrun : ∃ t : State Nat,
      [.update, .updated, .update, .call true (.returns 5), .serve 0 (.fails .conflict false),
        .respond 0, .updated, .refreshed 0 true (.returns 6), .serve 0 .done, .respond 0, .updated,
        .call true .deletes, .serve 0 .done, .respond 0, .update, .updated, .updated,
        .call false .resigns, .updated, .call false .raises].foldlM
          (checked Smooth step) start = some t ∧
      decide (t.updates = [] ∧ t.scheduled = 0 ∧ t.chains = [] ∧
        t.fired = [(0, .performed (.saved 6)), (1, .performed .deleted), (2, .resigned)]) =
          true := by
    apply Option.map_eq_some_iff.mp
    decide +kernel
  obtain ⟨t, ht, h⟩ := hrun
  obtain ⟨hupdates, hdue, hchains, hfired⟩ := of_decide_eq_true h
  exact ⟨t, ⟨hupdates, hdue, hchains⟩, hfired, performed_once (run_checked ht)⟩

/-- A handler that raises leaves nothing on its way, no waiter fired and its entry and the one
behind it in the queue. A removal that conflicts makes the operation be committed again. -/
theorem stopped_or_repeated :
    (∃ t : State Nat, Run (Defined step) start
      [.update, .updated, .update, .updated, .call true .raises] t ∧ ¬ Performed t) ∧
    ∃ t : State Nat, Run (Defined step) start
      [.update, .updated, .call true (.returns 5), .serve 0 .done, .respond 0,
        .updateFails .conflict, .refreshed 0 true (.returns 6), .serve 0 .done] t ∧
      ¬ Performed t := by
  constructor
  · obtain ⟨t, ht, h⟩ : ∃ t : State Nat,
        [.update, .updated, .update, .updated, .call true .raises].foldlM step start = some t ∧
          decide (t.updates = [] ∧ t.scheduled = 0 ∧ t.chains = [] ∧ t.entries = [0, 1]) =
            true := by
      apply Option.map_eq_some_iff.mp
      decide +kernel
    obtain ⟨hupdates, hdue, hchains, hentries⟩ := of_decide_eq_true h
    refine ⟨t, run_defined ht, fun hp => ?_⟩
    cases hentries.symm.trans (hp.complete ⟨hupdates, hdue, hchains⟩).2.2
  · obtain ⟨t, ht, h⟩ : ∃ t : State Nat,
        [.update, .updated, .call true (.returns 5), .serve 0 .done, .respond 0,
          .updateFails .conflict, .refreshed 0 true (.returns 6), .serve 0 .done].foldlM
            step start = some t ∧
          decide (t.commits.map Prod.fst = [0, 0] ∧ t.enqueued = [0]) = true := by
      apply Option.map_eq_some_iff.mp
      decide +kernel
    obtain ⟨hcommits, henqueued⟩ := of_decide_eq_true h
    refine ⟨t, run_defined ht, fun hp => ?_⟩
    have hlength := hp.committed.length_le
    rw [hcommits, henqueued] at hlength
    exact absurd hlength (by decide)

end State
end Feat.Agents.PersistentUpdater
