import Feat.Agents.ClerkForemost

/- Deaths that are withheld, and what will bring them out.

   A location with a withheld death and nobody dying has to be isolated or recovering, so that
   a call brings the death out; while the clerk is isolated, the location has to be paused or
   have its call already (`Minded`). Pausing loses this where a recovering location goes back to
   normal, and resuming where the clerk isolates itself again and the rest of the locations is
   resumed without calls: the conditions here exclude these (`SafelyPaused`, `SafelyResumed`,
   `SafelyQuarantined`). -/
namespace Feat.Agents.Monitor
open Hash Transition

section Conditions
variable (c : Config)

instance (s : Clerk) : Decidable (NoneRecovering c s) :=
  inferInstanceAs (Decidable (∀ r ∈ iterLocations c s, _ ∨ _))

instance (s : Clerk) (r : Ref) : Decidable (s.Lifting r) :=
  decidable_of_iff (∃ e ∈ s.calls.entries, e.2.2 = .liftLocation r) <| by
    refine ⟨fun ⟨e, he, hcall⟩ => ⟨e.1, e.2.1, ?_⟩, fun ⟨id, delay, hid⟩ => ?_⟩
    · rw [← hcall]
      exact AList.mem_lookup_iff.mpr he
    · exact ⟨_, AList.mem_lookup_iff.mp hid, rfl⟩

/-- The clerk may pause all locations because nobody is seen alive: what is withheld is
    withheld by isolated locations, and by the first one only where pausing leads the clerk
    out of isolation again. -/
def SafelyPaused (s : Clerk) : Prop :=
  (∃ r ∈ iterLocations c s, Lively c (s.heap r)) ∨
    (∀ r ∈ iterLocations c s, Awaiting c (s.heap r) → (s.heap r).state = .isolated) ∧
      (NoneRecovering c s ∨ ∀ r ∈ iterLocations c s, Awaiting c (s.heap r) → Foremost c s r)

instance (s : Clerk) : Decidable (SafelyPaused c s) :=
  inferInstanceAs (Decidable ((∃ r ∈ iterLocations c s, Lively c (s.heap r)) ∨
    (∀ r ∈ iterLocations c s, Awaiting c (s.heap r) → (s.heap r).state = .isolated) ∧
      (NoneRecovering c s ∨ ∀ r ∈ iterLocations c s, Awaiting c (s.heap r) → Foremost c s r)))

/-- The clerk may resume all locations: somebody is seen alive, or a death is withheld by the
    first isolated location only. -/
def SafelyResumed (s : Clerk) : Prop :=
  (∃ r ∈ iterLocations c s, Lively c (s.heap r)) ∨
    ∀ r ∈ iterLocations c s, Awaiting c (s.heap r) → Foremost c s r

instance (s : Clerk) : Decidable (SafelyResumed c s) :=
  inferInstanceAs (Decidable ((∃ r ∈ iterLocations c s, Lively c (s.heap r)) ∨
    ∀ r ∈ iterLocations c s, Awaiting c (s.heap r) → Foremost c s r))

/-- The location may check whether it needs quarantine: an isolated clerk would not schedule
    its call, and a clerk that gets isolated by it pauses the locations. -/
def SafelyQuarantined (s : Clerk) (r : Ref) : Prop :=
  (s.heap r).paused = false →
    (s.state = .isolated → Awaiting c (s.heap r) → s.Lifting r) ∧
      (s.state = .normal ∨ s.state = .disconnected → Isolates c (s.heap r) →
        SafelyPaused c (s.locate r .isolated))

instance (s : Clerk) (r : Ref) : Decidable (SafelyQuarantined c s r) :=
  inferInstanceAs (Decidable (_ → (_ → _ → _) ∧ (_ → _ → _)))

end Conditions

variable {c : Config} {s t u : Clerk} {r : Ref}

/-- What a location withholds will be brought out. -/
def MindedAt (c : Config) (s : Clerk) (r : Ref) : Prop :=
  Awaiting c (s.heap r) → (s.heap r).state ≠ .normal ∧
    (s.state = .isolated → (s.heap r).state = .isolated → (s.heap r).paused = true ∨ s.Lifting r)

/-- What the locations withhold will be brought out. -/
def Minded (c : Config) (s : Clerk) : Prop := ∀ r ∈ iterLocations c s, MindedAt c s r

theorem MindedAt.mono (h : MindedAt c s r)
    (hawaiting : Awaiting c (t.heap r) → Awaiting c (s.heap r))
    (hstate : (t.heap r).state = (s.heap r).state)
    (hpaused : (s.heap r).paused = true → (t.heap r).paused = true)
    (hclerk : t.state = .isolated → s.state = .isolated)
    (hlifting : t.state = .isolated → s.Lifting r → t.Lifting r) : MindedAt c t r := by
  intro ht
  obtain ⟨hnormal, hisolated⟩ := h (hawaiting ht)
  rw [← hstate] at hnormal hisolated
  refine ⟨hnormal, fun hs hr => ?_⟩
  obtain hp | hl := hisolated (hclerk hs) hr
  · exact .inl (hpaused hp)
  · exact .inr (hlifting hs hl)

/-- A clerk that is not isolated has calls for the locations that need them. -/
theorem mindedAt_of_state (hs : s.state ≠ .isolated)
    (h : Awaiting c (s.heap r) → (s.heap r).state ≠ .normal) : MindedAt c s r :=
  fun ha => ⟨h ha, fun he => absurd he hs⟩

theorem mindedAt_of_not (h : ¬ Awaiting c (s.heap r)) : MindedAt c s r := fun ha => absurd ha h

theorem mindedAt_recovering (h : (s.heap r).state = .recovering) : MindedAt c s r := by
  intro _
  rw [h]
  exact ⟨fun he => (by cases he), fun _ he => (by cases he)⟩

/-- Only the calls of the location itself are made anew. -/
theorem MindedAt.rescheduled (h : MindedAt c s r) (hst : Rescheduled s t)
    (hlifting : s.state = .isolated → s.Lifting r → t.Lifting r) : MindedAt c t r := by
  have hheap := hst.heap
  have hstate := hst.steady.monitored
  exact h.mono (by rw [hheap]; exact id) (by rw [hheap]) (by rw [hheap]; exact id)
    (fun ht => hstate.symm.trans ht) fun ht => hlifting (hstate.symm.trans ht)

theorem Minded.bringOutYourDead (h : ∀ r' ∈ iterLocations c s, r' ≠ r → MindedAt c s r')
    (hr : r ∈ iterLocations c s → Awaiting c ((bringOutYourDead c r s).heap r) →
      (s.heap r).state ≠ .normal ∧ s.state ≠ .isolated) : Minded c (bringOutYourDead c r s) := by
  have hsettled := settled_bringOutYourDead (c := c) s r
  obtain ⟨hcalls, hstate, hsame⟩ := bringOutYourDead_same (c := c) r s
  intro r' hr'
  rw [hsettled.frame.iterLocations] at hr'
  by_cases he : r' = r
  · subst he
    intro ha
    obtain ⟨hnormal, hsees⟩ := hr hr' ha
    refine ⟨by rw [(hsame r').2]; exact hnormal, fun hs => absurd (hstate.symm.trans hs) hsees⟩
  · refine (h r' hr' he).mono hsettled.awaiting (hsame r').2 (fun hp => (hsame r').1.trans hp)
      (fun hs => hstate.symm.trans hs) fun _ ⟨id, delay, hid⟩ => ⟨id, delay, ?_⟩
    rw [hcalls]
    exact hid

/-! ## Isolation -/

section Callbacks
variable {depth : Nat}

theorem minded_checkIsolated (hnodup : (iterLocations c s).Nodup)
    (hs : recoveringCount c s ≤ depth + 1) (h : Minded c s)
    (hsafe : s.state = .normal ∨ s.state = .disconnected → SafelyPaused c s) :
    Minded c (checkIsolated c (locationStateChanged c (depth + 1)) s).2 := by
  unfold checkIsolated
  by_cases hseeing : s.state = .isolated ∨ s.state = .recovering
  · rw [if_pos hseeing]
    exact h
  · rw [if_neg hseeing]
    by_cases hlively : ∃ r ∈ iterLocations c s, Lively c (s.heap r)
    · rw [if_pos hlively]
      exact h
    · rw [if_neg hlively]
      have hstate : s.state = .normal ∨ s.state = .disconnected := by
        cases hst : s.state with
        | normal => exact .inl rfl
        | disconnected => exact .inr rfl
        | isolated => exact absurd (.inl hst) hseeing
        | recovering => exact absurd (.inr hst) hseeing
      obtain ⟨hisolated, hrest⟩ := (hsafe hstate).resolve_left hlively
      have hsched := (settled_monitored s .isolated).trans
        (rescheduled_isoScheduleCall c.selfQuarantineLength { s with state := .isolated }).settled
      have hcount := hsched.recoveringCount_le.trans hs
      have hmonitored : (isoScheduleCall c.selfQuarantineLength { s with state := .isolated }).state =
          .isolated := (rescheduled_isoScheduleCall c.selfQuarantineLength
            { s with state := .isolated }).steady.monitored
      dsimp only
      generalize isoScheduleCall c.selfQuarantineLength { s with state := .isolated } = v
        at hsched hcount hmonitored ⊢
      have hloop := settled_locPauseAll
        (fun r _ hr => settled_locationStateChanged (c := c) (depth + 1) r hr) hcount
      have hall := hsched.trans hloop
      intro r hr ha
      rw [hall.frame.iterLocations] at hr
      have hr0 := hisolated r hr (hall.awaiting ha)
      refine ⟨?_, fun ht _ => .inl ?_⟩
      · rw [(hall.isolated_iff r).mpr hr0]
        exact fun he => by cases he
      · obtain hnone | hfirst := hrest
        · -- nothing leads out of isolation, so that the loop pauses every location
          have hpausing : Pausing c v := by
            refine .inr (.inr ⟨hmonitored, .inr fun r' hr' => ?_⟩)
            rw [hsched.frame.iterLocations] at hr'
            rw [hsched.frame.name]
            refine (hnone r' hr').imp id fun hnot he => ?_
            obtain hsame | ⟨-, hnormal⟩ := hsched.located r'
            · exact hnot (hsame.symm.trans he)
            · rw [hnormal] at he
              cases he
          have hcalm := calm_locPauseAll (k := locationStateChanged c depth) hpausing
          refine hcalm.held (.inr ht) r ?_
          show r ∈ iterLocations c (locPauseAll c (locationStateChanged c (depth + 1)) v)
          rw [hall.frame.iterLocations]
          exact hr
        · have hlead : Leading c v r :=
            hsched.leading ⟨hnodup, hfirst r hr (hall.awaiting ha)⟩
          exact resting_locPauseAll (restful_locationStateChanged r (depth + 1)) hcount hlead ht

theorem minded_needQuarantine (hr : (s.heap r).state = .isolated)
    (hnodup : (iterLocations c s).Nodup) (hs : recoveringCount c s ≤ depth + 1) (h : Minded c s)
    (hsafe : s.state = .normal ∨ s.state = .disconnected → SafelyPaused c s) :
    Minded c (needQuarantine c (locationStateChanged c (depth + 1)) r s) := by
  have hchecked := minded_checkIsolated hnodup hs h hsafe
  obtain ⟨v, hv, hneed⟩ :=
    needQuarantine_isolated (c := c) (k := locationStateChanged c (depth + 1)) hr
  have hminded : Minded c v := by
    obtain rfl | ⟨hfalse, rfl⟩ := hv
    · exact hchecked
    · -- the clerk is not isolated here, and its calls do not matter
      have hcancel := rescheduled_locCancelCall r
        (checkIsolated c (locationStateChanged c (depth + 1)) s).2
      have hsees : (checkIsolated c (locationStateChanged c (depth + 1)) s).2.state ≠ .isolated := by
        rw [checkIsolated_false hfalse]
        intro he
        rw [checkIsolated_held (.inl he)] at hfalse
        cases hfalse
      intro r' hr'
      rw [hcancel.settled.frame.iterLocations] at hr'
      exact (hchecked r' hr').rescheduled hcancel fun he => absurd he hsees
  rw [hneed]
  split
  · rename_i hsees
    have hsched := rescheduled_locScheduleCall c.hostQuarantineLength r v
    intro r' hr'
    rw [hsched.settled.frame.iterLocations] at hr'
    exact (hminded r' hr').rescheduled hsched fun he => absurd he hsees
  · exact hminded

/-- The clerk does not react to a location that gets isolated. -/
theorem locationStateChanged_isolated (hr : (s.heap r).state = .isolated)
    (hin : r ∈ iterLocations c s) : locationStateChanged c (depth + 1) r s = s := by
  show stateChanged c (locationStateChanged c depth) r s = s
  have hne : (s.heap r).state ≠ .normal := by
    rw [hr]
    exact fun he => by cases he
  unfold stateChanged
  dsimp only
  rw [if_neg hne]
  split
  · rw [if_neg fun h => h.1 hr]
  · rw [if_neg fun h => hne (h r hin)]
  · rfl

theorem minded_checkQuarantine (hin : r ∈ iterLocations c s)
    (hnodup : (iterLocations c s).Nodup) (hs : s.locations.keys.length ≤ depth)
    (hothers : ∀ r' ∈ iterLocations c s, r' ≠ r → MindedAt c s r')
    (hsafe : SafelyQuarantined c s r) :
    Minded c (checkQuarantine c (locationStateChanged c (depth + 1)) r s) := by
  by_cases hisolates : Isolates c (s.heap r)
  · have hlocated : setState (locationStateChanged c (depth + 1)) r .isolated s =
        s.locate r .isolated := by
      refine locationStateChanged_isolated (s := s.locate r .isolated) ?_ hin
      rw [locate_state, if_pos rfl]
    have hstate : ((s.locate r .isolated).heap r).state = .isolated := by
      rw [locate_state, if_pos rfl]
    have hpausedSame : ((s.locate r .isolated).heap r).paused = (s.heap r).paused :=
      update_state_paused s r r .isolated
    have hawaiting : Awaiting c ((s.locate r .isolated).heap r) → Awaiting c (s.heap r) := by
      rw [Clerk.locate, update_heap_self]
      exact fun ha => ha.of_flags rfl (Finset.Subset.refl _)
    have hminded : ((s.heap r).paused = true ∨
        (s.state = .isolated → Awaiting c (s.heap r) → s.Lifting r)) →
        Minded c (s.locate r .isolated) := by
      intro hself r' hr'
      by_cases he : r' = r
      · subst he
        refine fun ha => ⟨by rw [hstate]; exact fun he => (by cases he), fun hst _ => ?_⟩
        obtain hp | hl := hself
        · exact .inl (hpausedSame.trans hp)
        · exact .inr (hl hst (hawaiting ha))
      · have hheap : (s.locate r .isolated).heap r' = s.heap r' := update_heap_ne _ _ he
        exact (hothers r' hr' he).mono (by rw [hheap]; exact id) (by rw [hheap])
          (by rw [hheap]; exact id) id fun _ hl => hl
    obtain ⟨hdying, hdead, hnot⟩ := hisolates
    unfold checkQuarantine
    rw [if_neg (by simp [hdying]), if_neg (by simp [hdead]), if_pos hnot]
    dsimp only
    rw [hlocated, hpausedSame]
    split
    · rename_i hpaused
      exact hminded (.inl hpaused)
    · rename_i hpaused
      obtain ⟨hcall, hpausing⟩ := hsafe (by simpa using hpaused)
      refine minded_needQuarantine hstate hnodup ?_ (hminded (.inr hcall)) fun hst =>
        hpausing hst ⟨hdying, hdead, hnot⟩
      exact (recoveringCount_le _).trans (Nat.le_succ_of_le hs)
  · rw [checkQuarantine_eq hisolates]
    intro r' hr'
    by_cases he : r' = r
    · subst he
      intro ha
      -- a location that withholds a death and is not isolated gets isolated
      have hst : (s.heap r').state = .isolated := by
        by_contra hnot
        obtain ⟨hdying, q, hq, -⟩ := ha
        exact hisolates ⟨hdying, List.length_pos_of_mem hq, hnot⟩
      refine ⟨by rw [hst]; exact fun he => (by cases he), fun hclerk _ => ?_⟩
      cases hp : (s.heap r').paused with
      | true => exact .inl rfl
      | false => exact .inr ((hsafe hp).1 hclerk ha)
    · exact hothers r' hr' he

/-! ## Resuming -/

/-- Resuming that cannot isolate the clerk pauses nothing. -/
theorem secure_locResumeAll_paused (h : Secure c s) (r : Ref) (k : Ref → Clerk → Clerk)
    (hr : r ∈ iterLocations c s ∨ (s.heap r).paused = false) :
    ((locResumeAll c k s).heap r).paused = false := by
  have hone : ∀ (l : Ref) (u : Clerk), Secure c u → l ∈ iterLocations c u →
      ((resume c k l u).heap r).paused =
        ((u.update l fun loc => { loc with paused := false }).heap r).paused := by
    intro l u hu hl
    have hpaused := steady_paused u l false
    have hnow := hpaused.secure hu
    have hmem : l ∈ iterLocations c (u.update l fun loc => { loc with paused := false }) := hl
    unfold resume
    dsimp only
    generalize u.update l (fun loc => { loc with paused := false }) = v at hnow hmem ⊢
    split
    · exact ((bringOutYourDead_same l v).2.2 r).1
    · rename_i hon
      split
      · rename_i hisolated
        have hst : v.state = .recovering ∨
            (v.state = .normal ∧ ∃ r ∈ iterLocations c v, Lively c (v.heap r)) := by
          obtain hst | ⟨hst, hoff | hl | hnone⟩ := hnow
          · exact .inl hst
          · exact absurd (by simp [hoff]) hon
          · exact .inr ⟨hst, hl⟩
          · exact absurd hisolated (hnone l hmem)
        rw [(rescheduled_needQuarantine hisolated hst).heap]
      · rename_i hrecovering
        rw [(rescheduled_locationRecovering hrecovering).heap]
      · rfl
  have hfold : ∀ (l : List Ref) (u : Clerk), Secure c u → (∀ r' ∈ l, r' ∈ iterLocations c u) →
      r ∈ l ∨ (u.heap r).paused = false →
      ((l.foldl (fun s r => resume c k r s) u).heap r).paused = false := by
    intro l
    induction l with
    | nil => exact fun _ _ _ h => h.resolve_left List.not_mem_nil
    | cons r' l ih =>
      intro u hu hl h
      have hsteady := steady_resume (k := k) hu (hl r' List.mem_cons_self)
      refine ih _ (hsteady.secure hu) (fun r'' hr'' => ?_) ?_
      · rw [hsteady.frame.iterLocations]
        exact hl r'' (List.mem_cons_of_mem _ hr'')
      · rw [hone r' u hu (hl r' List.mem_cons_self)]
        by_cases he : r = r'
        · subst he
          rw [update_heap_self]
          exact .inr rfl
        · rw [update_heap_ne _ _ he]
          exact h.imp (fun hin => (List.mem_cons.mp hin).resolve_left he) id
  exact hfold _ s h (fun _ hr => hr) hr

/-- What the loop over the locations leaves, whether it isolates the clerk or not. -/
theorem mindedAt_locResumeAll (hnodup : (iterLocations c s).Nodup)
    (hs : recoveringCount c s ≤ depth) (hstate : s.state ≠ .isolated)
    (h : Awaiting c (s.heap r) → (s.heap r).state ≠ .normal)
    (hsafe : Secure c s ∨ (Awaiting c (s.heap r) → Foremost c s r)) :
    MindedAt c (locResumeAll c (locationStateChanged c depth) s) r := by
  have hsettled := settled_locResumeAll
    (fun r _ hr => settled_locationStateChanged (c := c) depth r hr) hs
  intro ha
  obtain hsecure | hfirst := hsafe
  · have hsteady := steady_locResumeAll (k := locationStateChanged c depth) hsecure
    refine ⟨?_, fun ht => absurd (hsteady.monitored.symm.trans ht) hstate⟩
    rw [hsteady.located]
    exact h (hsettled.awaiting ha)
  · have hlead : Leading c s r := ⟨hnodup, hfirst (hsettled.awaiting ha)⟩
    refine ⟨?_, fun ht _ => .inl ?_⟩
    · rw [(hsettled.isolated_iff r).mpr hlead.isolated]
      exact fun he => by cases he
    · exact resting_locResumeAll (restful_locationStateChanged r depth) hs hlead hstate ht

end Callbacks

end Feat.Agents.Monitor
