import Feat.Agents.ClerkDeaths
import Feat.Agents.ClerkTold

/- No death is forgotten.

   In every state of a run, a location that is not paused and withholds a death has somebody
   dying or a call pending, as long as the events meet their condition (`no_death_forgotten`).
   What happens where they do not is run in `death_forgotten`: of two patients that are dying
   one dies, a patient is added, and the other one dies. -/
namespace Feat.Agents.Monitor
open Hash Transition

variable {c : Config} {s t : Clerk} {r : Ref}

/-- What the steps keep that meet the condition. -/
structure Kept (c : Config) (s : Clerk) : Prop where
  placed : Placed s
  reported : Reported s
  flagged : Flagged s
  held : Held c (fun _ => False) (fun r => r < s.created) s
  minded : c.enableQuarantine = true → Minded c s
  told : c.enableQuarantine = false → Told c s

theorem step_created {e : Event} (hplaced : Placed s) (hstep : step c s e = some t) :
    s.created ≤ t.created := by
  have hdirect : s.created ≤ (direct c s e).created := by
    cases e with
    | added key location period =>
      show s.created ≤ (onPatientAdded key _ { s with history := s.history ++ [.added key] }).created
      unfold onPatientAdded
      cases s.locations.lookup location with
      | some r => exact Nat.le_refl _
      | none => exact Nat.le_succ _
    | removed key =>
      dsimp only [direct]
      split
      · rw [(frame_afterRemoval _ _ _).created]
        exact Nat.le_refl _
      · exact Nat.le_refl _
    | died key =>
      dsimp only [direct]
      split
      · rw [(frame_afterDeath _ _).created]
        exact Nat.le_refl _
      · exact Nat.le_refl _
    | dying key => dsimp only [direct]; split <;> exact Nat.le_refl _
    | relapsed key => dsimp only [direct]; split <;> exact Nat.le_refl _
    | resurrected key => dsimp only [direct]; split <;> exact Nat.le_refl _
    | disconnected => exact Nat.le_refl _
    | reconnected => exact Nat.le_refl _
    | fired id => dsimp only [direct]; split <;> exact Nat.le_refl _
  obtain ⟨v, hv, rfl | ⟨_, _, _, _, _, _, rfl⟩⟩ := step_settled hplaced hstep
  · rw [hv.frame.created]
    exact hdirect
  · show s.created ≤ v.created
    rw [hv.frame.created]
    exact hdirect

theorem mem_of_mem_erased {name : String}
    (h : r ∈ iterLocations c { s with locations := s.locations.erase name }) :
    r ∈ iterLocations c s := by
  obtain ⟨n, hn⟩ := mem_iterLocations.mp h
  refine mem_iterLocations.mpr ⟨n, ?_⟩
  replace hn : (s.locations.erase name).lookup n = some r := hn
  by_cases he : n = name
  · rw [he, AList.lookup_erase] at hn
    cases hn
  · rwa [AList.lookup_erase_ne he] at hn

/-- A location where somebody is dying awaits nothing. -/
theorem not_awaiting_mark_dying {loc : Location} {key : String} {p : Patient} :
    ¬ Awaiting c (loc.mark key p .dying) := by
  intro h
  exact (awaiting_iff.mp h).1 key _ (AList.lookup_insert _) rfl

theorem minded_marked (h : Minded c s) (r : Ref) (key : String) (p : Patient) :
    Minded c (s.update r (.mark key p .dying)) := by
  intro r' hr'
  by_cases he : r' = r
  · subst he
    refine mindedAt_of_not ?_
    rw [update_heap_self]
    exact not_awaiting_mark_dying
  · have hheap : (s.update r (.mark key p .dying)).heap r' = s.heap r' := update_heap_ne _ _ he
    exact (h r' hr').mono (by rw [hheap]; exact id) (by rw [hheap]) (by rw [hheap]; exact id) id
      fun _ hl => hl

theorem minded_onPatientAdded (h : Minded c s) (hplaced : Placed s) {key : String} {p : Patient}
    (hnew : key ∉ s.patients) (halive : p.state = .alive) : Minded c (onPatientAdded key p s) := by
  -- whoever is added is alive and not dying
  have hput : ∀ (loc : Location), (∀ q, loc.patients.lookup key ≠ some q) →
      Awaiting c { loc with patients := loc.patients.insert key p } → Awaiting c loc := by
    intro loc hfree ha
    obtain ⟨hdying, key', q, hq, hdead, hnot⟩ := awaiting_iff.mp ha
    dsimp only at hdying hq hnot
    refine awaiting_iff.mpr ⟨fun k q' hq' => ?_, key', q, ?_, hdead, hnot⟩
    · have hk : k ≠ key := fun he => hfree q' (he ▸ hq')
      exact hdying k q' ((AList.lookup_insert_ne hk).trans hq')
    · have hk : key' ≠ key := by
        rintro rfl
        rw [AList.lookup_insert] at hq
        cases hq
        rw [halive] at hdead
        cases hdead
      rwa [AList.lookup_insert_ne hk] at hq
  have hfree : ∀ r q, (s.heap r).patients.lookup key ≠ some q := by
    intro r q hq
    exact hnew (AList.lookup_isSome.mp (by rw [(hplaced.resident r key q hq).1]; rfl))
  have hone : ∀ r' ∈ iterLocations c s, ∀ (t : Clerk), ((t.heap r') = s.heap r' ∨
      (t.heap r') = { s.heap r' with patients := (s.heap r').patients.insert key p }) →
      t.state = s.state → t.calls = s.calls → MindedAt c t r' := by
    intro r' hr' t hheap hstate hcalls
    have hlifting : s.Lifting r' → t.Lifting r' := by
      unfold Clerk.Lifting
      rw [hcalls]
      exact id
    obtain hheap | hheap := hheap
    · exact (h r' hr').mono (by rw [hheap]; exact id) (by rw [hheap]) (by rw [hheap]; exact id)
        (fun ht => hstate.symm.trans ht) fun _ => hlifting
    · refine (h r' hr').mono (fun ha => hput _ (hfree r') (hheap ▸ ha)) (by rw [hheap])
        (by rw [hheap]; exact id) (fun ht => hstate.symm.trans ht) fun _ => hlifting
  unfold onPatientAdded
  cases hr : s.locations.lookup p.location with
  | some r =>
    intro r' hr'
    refine hone r' hr' _ ?_ rfl rfl
    dsimp only
    by_cases he : r' = r
    · subst he
      exact .inr (update_heap_self _ _ _)
    · exact .inl (update_heap_ne _ _ he)
  | none =>
    intro r' hr'
    by_cases he : r' = s.created
    · subst he
      refine mindedAt_of_not fun ha => ?_
      obtain ⟨-, key', q, hq, hdead, -⟩ := awaiting_iff.mp ha
      dsimp only at hq
      rw [update_heap_self] at hq
      dsimp only at hq
      rw [update_heap_self] at hq
      by_cases hk : key' = key
      · rw [hk, AList.lookup_insert] at hq
        cases hq
        rw [halive] at hdead
        cases hdead
      · rw [AList.lookup_insert_ne hk] at hq
        cases hq
    · obtain ⟨name, hname⟩ := mem_iterLocations.mp hr'
      have hknown : r' ∈ iterLocations c s := by
        replace hname : (s.locations.insert p.location s.created).lookup name = some r' := hname
        by_cases hn : name = p.location
        · rw [hn, AList.lookup_insert] at hname
          exact absurd (Option.some.inj hname).symm he
        · rw [AList.lookup_insert_ne hn] at hname
          exact mem_iterLocations.mpr ⟨name, hname⟩
      refine hone r' hknown _ (.inl ?_) rfl rfl
      dsimp only
      rw [update_heap_ne _ _ he]
      exact update_heap_ne s (fun _ => .new p.location) he

/-- One event of a clerk with quarantine. -/
theorem step_minded {e : Event} (h : Kept c s) (hon : c.enableQuarantine = true)
    (hguard : Remembering c s e) (hstep : step c s e = some t) : Minded c t := by
  have hminded := h.minded hon
  have hs : s.locations.keys.length ≤ s.locations.keys.length := Nat.le_refl _
  have hnodup : (iterLocations c s).Nodup := iterLocations_nodup fun n r hn => (h.placed.named n r hn).1
  have hknown : ∀ key r p, s.patient key = some (r, p) → r ∈ iterLocations c s := by
    intro key r p hp
    exact mem_iterLocations.mpr ⟨_, (h.placed.resident r key p (patient_eq_some.mp hp).2).2.1⟩
  have hothers : ∀ (r : Ref) (f : Location → Location) (r' : Ref), r' ∈ iterLocations c s →
      r' ≠ r → MindedAt c (s.update r f) r' := by
    intro r f r' hr' he
    have hheap : (s.update r f).heap r' = s.heap r' := update_heap_ne _ _ he
    exact (hminded r' hr').mono (by rw [hheap]; exact id) (by rw [hheap]) (by rw [hheap]; exact id)
      id fun _ hl => hl
  cases e with
  | added key location period =>
    dsimp only [step] at hstep
    split at hstep
    · cases hstep
    · rename_i hnew
      obtain rfl := Option.some.inj hstep
      exact minded_onPatientAdded (s := { s with history := s.history ++ [.added key] }) hminded
        ⟨h.placed.named, h.placed.resident⟩ hnew rfl
  | removed key =>
    obtain ⟨⟨r, p⟩, hp, hstep⟩ := Option.bind_eq_some_iff.mp hstep
    obtain rfl := Option.some.inj hstep
    have hpat := (patient_eq_some.mp hp).2
    obtain ⟨-, hloc, hpl⟩ := h.placed.resident r key p hpat
    have hremoved := minded_removePatient (s := { s with patients := s.patients.erase key })
      hon (hknown key r p hp) hnodup hs (fun r' hr' he => hminded r' hr') (hguard hon (r, p) hp)
      (fun hdead hnormal ha => (hminded r (hknown key r p hp) ?_).1 hnormal)
    · rw [onPatientRemoved_known (hpl ▸ hloc)]
      dsimp only
      split
      · exact fun r' hr' => hremoved r' (mem_of_mem_erased hr')
      · exact hremoved
    · -- a patient that is removed dead leaves what the others withhold
      obtain ⟨hdying, key', q, hq, hqdead, hnot⟩ := awaiting_iff.mp ha
      unfold Location.without at hdying hq hnot
      dsimp only at hdying hq hnot
      have hk : key' ≠ key := by
        rintro rfl
        rw [AList.lookup_erase] at hq
        cases hq
      rw [AList.lookup_erase_ne hk] at hq
      refine awaiting_iff.mpr ⟨fun k q' hq' => ?_, key', q, hq, hqdead, fun hin => hnot ?_⟩
      · by_cases hkk : k = key
        · rw [hkk] at hq'
          rw [show (s.heap r).patients.lookup key = some q' from hq'] at hpat
          cases hpat
          rw [hdead]
          exact fun he => by cases he
        · exact hdying k q' ((AList.lookup_erase_ne hkk).trans hq')
      · exact Finset.mem_erase.mpr ⟨hk, hin⟩
  | dying key =>
    obtain ⟨⟨r, p⟩, hp, hstep⟩ := Option.bind_eq_some_iff.mp hstep
    dsimp only at hstep
    split at hstep
    · obtain rfl := Option.some.inj hstep
      exact minded_marked hminded r key p
    · cases hstep
  | died key =>
    obtain ⟨⟨r, p⟩, hp, hstep⟩ := Option.bind_eq_some_iff.mp hstep
    dsimp only at hstep
    split at hstep
    · obtain rfl := Option.some.inj hstep
      exact minded_patientDied (s := s.update r (.mark key p .dead)) hon (hknown key r p hp) hnodup
        hs (hothers r _) _ (hguard hon (r, p) hp)
    · cases hstep
  | resurrected key =>
    obtain ⟨⟨r, p⟩, hp, hstep⟩ := Option.bind_eq_some_iff.mp hstep
    dsimp only at hstep
    split at hstep
    · obtain rfl := Option.some.inj hstep
      have hmarked : Held c (fun _ => False) (fun r => r < s.created)
          { s.update r (.mark key p .alive) with history := s.history ++ [.resurrected key] } :=
        (h.held.flag (.mark key p .alive) (fun _ => rfl) (fun _ => rfl) fun _ => rfl).kept rfl
          (fun _ _ hn => hn) rfl rfl rfl rfl rfl
      refine minded_patientResurrected hon hmarked (hknown key r p hp) hnodup hs (hothers r _)
        (p := { p with state := .alive }) ?_ rfl
      show ((s.update r (.mark key p .alive)).heap r).patients.lookup key = _
      rw [update_heap_self]
      exact AList.lookup_insert _
    · cases hstep
  | relapsed key =>
    obtain ⟨⟨r, p⟩, hp, hstep⟩ := Option.bind_eq_some_iff.mp hstep
    dsimp only at hstep
    split at hstep
    · obtain rfl := Option.some.inj hstep
      exact minded_marked hminded r key p
    · cases hstep
  | disconnected =>
    obtain rfl := Option.some.inj hstep
    exact minded_onDisconnected hs hminded (hguard hon)
  | reconnected =>
    obtain rfl := Option.some.inj hstep
    exact minded_onReconnected hnodup hs hminded (hguard hon)
  | fired id =>
    obtain ⟨⟨delay, call⟩, hcall, hstep⟩ := Option.bind_eq_some_iff.mp hstep
    cases call with
    | liftLocation r =>
      obtain rfl := Option.some.inj hstep
      obtain ⟨hfired, hsole⟩ := h.held.fired hcall
      refine minded_quarantineLifted hfired hsole hnodup hs (fun r' hr' he => ?_)
        (hguard hon _ hcall)
      refine (hminded r' hr').mono (fun h => h) rfl (fun h => h) (fun h => h) fun _ hl => ?_
      exact (lifting_fired_iff h.held.indexed hcall _).mpr ⟨hl, he⟩
    | liftIsolation =>
      obtain rfl := Option.some.inj hstep
      intro r hr
      have hsettled := settled_isoLiftQuarantine (c := c)
        (s := { s with calls := s.calls.erase id })
        (fun r _ hr => settled_locationStateChanged (s.locations.keys.length + 1) r hr)
        (Nat.lt_succ_self _)
      rw [hsettled.frame.iterLocations] at hr
      refine mindedAt_locResumeAll (s := { s with calls := s.calls.erase id, state := .recovering })
        hnodup ((recoveringCount_le _).trans (Nat.le_succ _)) (fun he => by cases he)
        (fun ha => (hminded r hr ha).1) (.inl (.inl rfl))

/-- One event of a clerk without quarantine. -/
theorem step_told {e : Event} (h : Kept c s) (hoff : c.enableQuarantine = false)
    (hstep : step c s e = some t) : Told c t := by
  have htold := h.told hoff
  have hnormal : AllNormal s := h.held.off hoff
  cases e with
  | added key location period =>
    dsimp only [step] at hstep
    split at hstep
    · cases hstep
    · obtain rfl := Option.some.inj hstep
      exact Told.onPatientAdded (s := { s with history := s.history ++ [.added key] }) htold
        ⟨h.placed.named, h.placed.resident⟩ rfl
  | removed key =>
    obtain ⟨⟨r, p⟩, hp, hstep⟩ := Option.bind_eq_some_iff.mp hstep
    obtain rfl := Option.some.inj hstep
    obtain ⟨-, hloc, hpl⟩ := h.placed.resident r key p (patient_eq_some.mp hp).2
    have hgone : Told c { s with patients := s.patients.erase key } := htold
    have hremoved := hgone.removed hoff
      (locationStateChanged c (s.locations.keys.length + 1)) r key p
    rw [onPatientRemoved_known (hpl ▸ hloc)]
    dsimp only
    split
    · exact fun r' hr' => hremoved r' (mem_of_mem_erased hr')
    · exact hremoved
  | dying key =>
    obtain ⟨⟨r, p⟩, hp, hstep⟩ := Option.bind_eq_some_iff.mp hstep
    dsimp only at hstep
    split at hstep
    · obtain rfl := Option.some.inj hstep
      exact htold.mark r key p .dying fun he => by cases he
    · cases hstep
  | died key =>
    obtain ⟨⟨r, p⟩, hp, hstep⟩ := Option.bind_eq_some_iff.mp hstep
    dsimp only at hstep
    split at hstep
    · obtain rfl := Option.some.inj hstep
      exact htold.died hoff _ r key p
    · cases hstep
  | resurrected key =>
    obtain ⟨⟨r, p⟩, hp, hstep⟩ := Option.bind_eq_some_iff.mp hstep
    dsimp only at hstep
    split at hstep
    · obtain rfl := Option.some.inj hstep
      exact htold.resurrected hoff _ r key p _
    · cases hstep
  | relapsed key =>
    obtain ⟨⟨r, p⟩, hp, hstep⟩ := Option.bind_eq_some_iff.mp hstep
    dsimp only at hstep
    split at hstep
    · obtain rfl := Option.some.inj hstep
      exact htold.mark r key p .dying fun he => by cases he
    · cases hstep
  | disconnected =>
    obtain rfl := Option.some.inj hstep
    unfold onDisconnected
    split
    · have hcancel := rescheduled_isoCancelCall s
      have hcalled : Told c (isoCancelCall s) := htold.rescheduled hcancel
      have hcut : Told c { isoCancelCall s with state := .disconnected } := hcalled
      exact hcut.locPauseAll (hcancel.settled.allNormal hnormal)
    · exact htold
  | reconnected =>
    obtain rfl := Option.some.inj hstep
    unfold onReconnected
    split
    · have hresumed : Told c { s with state := .normal } := htold
      refine (hresumed.locResumeAll hoff).checkIsolated ?_
      have hsettled := settled_locResumeAll (c := c) (s := { s with state := .normal })
        (fun r _ hr => settled_locationStateChanged (s.locations.keys.length + 1) r hr)
        ((recoveringCount_le _).trans (Nat.le_succ _))
      exact hsettled.allNormal hnormal
    · exact htold
  | fired id =>
    obtain ⟨⟨delay, call⟩, hcall, hstep⟩ := Option.bind_eq_some_iff.mp hstep
    cases call with
    | liftLocation r =>
      obtain rfl := Option.some.inj hstep
      have hlocated : Told c (Clerk.locate { s with calls := s.calls.erase id } r .normal) := by
        have herased : Told c { s with calls := s.calls.erase id } := htold
        refine herased.settled (settled_update _ r _ rfl rfl (.inl (hnormal r).symm)
          fun _ hk => hk) fun r' hp => ?_
        exact (update_state_paused _ r r' .normal).symm.trans hp
      exact (hlocated.locationStateChanged hoff _ r).bringOutYourDead r
    | liftIsolation =>
      obtain rfl := Option.some.inj hstep
      have hrecovering : Told c { s with calls := s.calls.erase id, state := .recovering } := htold
      exact hrecovering.locResumeAll hoff

theorem step_kept {e : Event} (h : Kept c s) (hguard : Remembering c s e)
    (hstep : step c s e = some t) : Kept c t := by
  obtain ⟨hplaced, hreported⟩ := step_reported ⟨h.placed, h.reported⟩ hstep
  refine ⟨hplaced, hreported, step_flagged h.flagged h.placed hstep, ?_,
    fun hon => step_minded h hon hguard hstep, fun hoff => step_told h hoff hstep⟩
  refine (step_held h.held h.placed (fun _ hr => hr) hstep).allow fun r hr => ?_
  obtain hr | hr := hr
  · exact Nat.lt_of_lt_of_le hr (step_created h.placed hstep)
  · obtain ⟨name, hname⟩ := mem_iterLocations.mp hr
    exact (hplaced.named name r hname).2

theorem new_kept : Kept c .new := by
  have hnone : ∀ r, r ∉ iterLocations c .new := by
    intro r hr
    obtain ⟨name, hname⟩ := mem_iterLocations.mp hr
    cases hname
  exact ⟨new_reported.1, new_reported.2, new_flagged, new_held,
    fun _ r hr => absurd hr (hnone r), fun _ r hr => absurd hr (hnone r)⟩

/-- Where a death is withheld by a location that is not paused, somebody is dying there or
    the call that lifts its quarantine is pending. -/
theorem no_death_forgotten (c : Config) {es : List Event} {s : Clerk}
    (h : Run (Guarded (Remembering c) (Defined (step c))) .new es s) :
    ∀ name r, s.locations.lookup name = some r → (s.heap r).paused = false →
      ∀ key p, (s.heap r).patients.lookup key = some p → p.state = .dead →
        ¬ Outstanding s.history key →
          (∃ key' q, (s.heap r).patients.lookup key' = some q ∧ q.state = .dying) ∨ s.Lifting r := by
  have hkept : Kept c s :=
    Run.preserves (fun _ _ _ hs hstep => step_kept hs hstep.1 hstep.2) h new_kept
  intro name r hname hpaused key p hp hdead hout
  have hr : r ∈ iterLocations c s := mem_iterLocations.mpr ⟨name, hname⟩
  have hflag : key ∉ (s.heap r).dead := fun hin => hout (hkept.flagged.reported r key hin)
  cases hon : c.enableQuarantine with
  | false => exact absurd (hkept.told hon r hr hpaused key p hp hdead) hflag
  | true =>
    refine Classical.or_iff_not_imp_left.mpr fun hnobody => ?_
    have ha : Awaiting c (s.heap r) :=
      awaiting_iff.mpr ⟨fun k q hq hst => hnobody ⟨k, q, hq, hst⟩, key, p, hp, hdead, hflag⟩
    obtain ⟨hnormal, hisolated⟩ := hkept.minded hon r hr ha
    obtain ⟨hrecovering, hquarantine⟩ := hkept.held.covered r hr id hpaused
    cases hst : (s.heap r).state with
    | normal => exact absurd hst hnormal
    | recovering => exact hrecovering hst
    | isolated =>
      by_cases hclerk : s.state = .isolated
      · refine (hisolated hclerk hst).resolve_left ?_
        rw [hpaused]
        exact Bool.false_ne_true
      · exact hquarantine hst hclerk

/-- Both patients of a host are dying and one of them dies, while a third is alive elsewhere. -/
theorem no_death_forgotten_dying :
    ∃ s, ([.added "a" "host" 5, .added "b" "host" 5, .added "c" "other" 5, .dying "a", .dying "b",
        .died "a"] : List Event).foldlM
          (checked (Remembering localMonitor) (step localMonitor)) .new = some s ∧
      s.history = [.added "a", .added "b", .added "c"] ∧
      ((∃ key q, (s.heap 0).patients.lookup key = some q ∧ q.state = .dying) ∨ s.Lifting 0) := by
  obtain ⟨s, hs, hrun⟩ : ∃ s, ([.added "a" "host" 5, .added "b" "host" 5, .added "c" "other" 5,
        .dying "a", .dying "b", .died "a"] : List Event).foldlM
          (checked (Remembering localMonitor) (step localMonitor)) .new = some s ∧
      decide (s.history = [.added "a", .added "b", .added "c"] ∧
        s.locations.lookup "host" = some 0 ∧ (s.heap 0).paused = false ∧
        (s.heap 0).patients.lookup "a" = some ⟨"host", 5, .dead⟩) = true := by
    apply Option.map_eq_some_iff.mp
    decide +kernel
  obtain ⟨hhist, hhost, hpaused, hdead⟩ := of_decide_eq_true hrun
  refine ⟨s, hs, hhist, no_death_forgotten localMonitor (run_checked hs) "host" 0 hhost hpaused
    "a" _ hdead rfl ?_⟩
  rintro ⟨xs, p, st, ys, he, -⟩
  have hm : Notice.dead "a" p st ∈ s.history := by simp [he]
  simp [hhist] at hm

/-- The two patients of a host are dying and one of them dies. A patient is added, so that the
    location does not wait for the other one, and only the other one is reported. -/
theorem death_forgotten :
    ¬ ∀ (c : Config) (es : List Event) (s : Clerk), Run (Defined (step c)) .new es s →
      ∀ name r, s.locations.lookup name = some r → (s.heap r).paused = false →
        ∀ key p, (s.heap r).patients.lookup key = some p → p.state = .dead →
          ¬ Outstanding s.history key →
            (∃ key' q, (s.heap r).patients.lookup key' = some q ∧ q.state = .dying) ∨
              s.Lifting r := by
  intro h
  obtain ⟨s, hs, hrun⟩ : ∃ s, ([.added "a" "host" 5, .added "b" "host" 5, .added "c" "other" 5,
        .dying "a", .dying "b", .died "a", .added "d" "host" 5, .died "b"] : List Event).foldlM
          (step localMonitor) .new = some s ∧
      decide (s.history = [.added "a", .added "b", .added "c", .added "d", .dead "b" .dead .normal] ∧
        s.locations.lookup "host" = some 0 ∧ (s.heap 0).paused = false ∧
        (s.heap 0).patients.lookup "a" = some ⟨"host", 5, .dead⟩ ∧
        (∀ e ∈ (s.heap 0).patients.entries, e.2.state ≠ .dying) ∧ ¬ s.Lifting 0) = true := by
    apply Option.map_eq_some_iff.mp
    decide +kernel
  obtain ⟨hhist, hhost, hpaused, hdead, hdying, hlifting⟩ := of_decide_eq_true hrun
  have hout : ¬ Outstanding s.history "a" := by
    rintro ⟨xs, p, st, ys, he, -⟩
    have hm : Notice.dead "a" p st ∈ s.history := by simp [he]
    simp [hhist] at hm
  obtain ⟨key, q, hq, hst⟩ | hl :=
    h localMonitor _ s (run_defined hs) "host" 0 hhost hpaused "a" _ hdead rfl hout
  · exact hdying ⟨key, q⟩ (AList.mem_lookup_iff.mp hq) hst
  · exact hlifting hl

end Feat.Agents.Monitor
