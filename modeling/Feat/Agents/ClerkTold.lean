import Feat.Agents.ClerkWithheld

/- Deaths at a clerk without quarantine.

   Every location is normal there, and the coroner is called for all the dead of a location
   that is not paused (`Told`): when they die, or when the location is resumed. -/
namespace Feat.Agents.Monitor
open Hash Transition

variable {c : Config} {s t : Clerk} {r : Ref}

/-- A location that is not paused has told of all its dead. -/
def Told (c : Config) (s : Clerk) : Prop :=
  ∀ r ∈ iterLocations c s, (s.heap r).paused = false → ∀ key p,
    (s.heap r).patients.lookup key = some p → p.state = .dead → key ∈ (s.heap r).dead

/-- No location is in quarantine. -/
def AllNormal (s : Clerk) : Prop := ∀ r, (s.heap r).state = .normal

theorem Settled.allNormal (h : Settled s t) (hs : AllNormal s) : AllNormal t := by
  intro r
  obtain hsame | ⟨-, hnormal⟩ := h.located r
  · rw [hsame]
    exact hs r
  · exact hnormal

/-- Nobody is forgotten where no location is resumed. -/
theorem Told.settled (h : Told c s) (hst : Settled s t)
    (hpaused : ∀ r, (t.heap r).paused = false → (s.heap r).paused = false) : Told c t := by
  intro r hr hp key p hlookup hdead
  rw [hst.frame.iterLocations] at hr
  rw [hst.frame.residents] at hlookup
  exact hst.flagged r (h r hr (hpaused r hp) key p hlookup hdead)

theorem Told.rescheduled (h : Told c s) (hst : Rescheduled s t) : Told c t :=
  h.settled hst.settled fun r hp => by rwa [hst.heap] at hp

theorem Told.bringOutYourDead (h : Told c s) (r : Ref) : Told c (bringOutYourDead c r s) :=
  h.settled (settled_bringOutYourDead s r) fun r' hp =>
    ((bringOutYourDead_same r s).2.2 r').1.symm.trans hp

section Callbacks
variable {k : Ref → Clerk → Clerk} {depth : Nat}

theorem Told.pause (h : Told c s) (hnormal : AllNormal s) (r : Ref) : Told c (pause k r s) := by
  have hstate : ((s.update r fun l => { l with paused := true }).heap r).state = .normal :=
    (settled_paused s r true).allNormal hnormal r
  unfold Monitor.pause
  dsimp only
  rw [if_neg (by rw [hstate]; exact fun he => by cases he)]
  refine h.settled (settled_paused s r true) fun r' hp => ?_
  by_cases he : r' = r
  · rw [he, update_heap_self] at hp
    cases hp
  · rwa [update_heap_ne _ _ he] at hp

theorem Told.resume (hoff : c.enableQuarantine = false) (h : Told c s) (r : Ref) :
    Told c (resume c k r s) := by
  unfold Monitor.resume
  dsimp only
  rw [if_pos (by simp [hoff])]
  have hsettled := settled_bringOutYourDead (c := c) (s.update r fun l => { l with paused := false }) r
  intro r' hr' hp key p hlookup hdead
  rw [hsettled.frame.iterLocations] at hr'
  by_cases he : r' = r
  · subst he
    rw [hsettled.frame.residents] at hlookup
    exact bringOutYourDead_flags (by rw [update_heap_self]) hlookup hdead
  · rw [((bringOutYourDead_same r _).2.2 r').1, update_heap_ne _ _ he] at hp
    rw [hsettled.frame.residents, update_heap_ne _ _ he] at hlookup
    refine hsettled.flagged r' ?_
    rw [update_heap_ne _ _ he]
    exact h r' hr' hp key p hlookup hdead

theorem Told.locResumeAll (hoff : c.enableQuarantine = false) (h : Told c s) :
    Told c (locResumeAll c k s) := by
  unfold Monitor.locResumeAll
  generalize iterLocations c s = l
  induction l generalizing s with
  | nil => exact h
  | cons r l ih => exact ih (h.resume hoff r)

theorem Told.locPauseAll (h : Told c s) (hnormal : AllNormal s) : Told c (locPauseAll c k s) := by
  unfold Monitor.locPauseAll
  generalize iterLocations c s = l
  induction l generalizing s with
  | nil => exact h
  | cons r l ih =>
    have hcancel := rescheduled_locCancelCall r s
    have hnormal' := hcancel.settled.allNormal hnormal
    refine ih ((h.rescheduled hcancel).pause hnormal' r) ?_
    -- no location is recovering, so that nothing is called back
    have hstate : (((locCancelCall r s).update r fun l => { l with paused := true }).heap r).state =
        .normal := (settled_paused _ r true).allNormal hnormal' r
    unfold Monitor.pause
    dsimp only
    rw [if_neg (by rw [hstate]; exact fun he => by cases he)]
    exact (settled_paused _ r true).allNormal hnormal'

theorem Told.checkIsolated (h : Told c s) (hnormal : AllNormal s) :
    Told c (checkIsolated c k s).2 := by
  unfold Monitor.checkIsolated
  split
  · exact h
  · split
    · exact h
    · have hsched := rescheduled_isoScheduleCall c.selfQuarantineLength { s with state := .isolated }
      have htold : Told c { s with state := .isolated } := h
      exact (htold.rescheduled hsched).locPauseAll (hsched.settled.allNormal hnormal)

theorem Told.stateChanged (hoff : c.enableQuarantine = false) (h : Told c s) (r : Ref) :
    Told c (stateChanged c k r s) := by
  obtain ⟨v, hv, -, -, -, heq⟩ | ⟨u, hu, -, -, heq⟩ | ⟨hsame, -⟩ :=
    stateChanged_cases (c := c) k r s
  · have htold : Told c { s with state := .normal } := h
    rw [heq]
    exact (htold.rescheduled hv).locResumeAll hoff
  · have htold : Told c u := h.rescheduled hu
    rw [heq]
    exact htold
  · exact h.rescheduled hsame

end Callbacks

theorem Told.locationStateChanged (hoff : c.enableQuarantine = false) (h : Told c s) (depth : Nat)
    (r : Ref) : Told c (locationStateChanged c depth r s) := by
  cases depth with
  | zero => exact h
  | succ depth => exact h.stateChanged hoff r

/-! ## Events -/

theorem Told.onPatientAdded (h : Told c s) (hplaced : Placed s) {key : String} {p : Patient}
    (halive : p.state = .alive) : Told c (onPatientAdded key p s) := by
  -- the location is there or made, and the patient is put there alive
  have hput : ∀ (u : Clerk) (r : Ref), Told c u →
      Told c { u.update r (fun l => { l with patients := l.patients.insert key p }) with
        patients := u.patients.insert key r } := by
    intro u r hu r' hr' hp key' q hlookup hdead
    replace hlookup : ((u.update r fun l => { l with patients := l.patients.insert key p }).heap
      r').patients.lookup key' = some q := hlookup
    replace hp : ((u.update r fun l => { l with patients := l.patients.insert key p }).heap
      r').paused = false := hp
    show key' ∈ ((u.update r fun l => { l with patients := l.patients.insert key p }).heap r').dead
    by_cases he : r' = r
    · subst he
      rw [update_heap_self] at hlookup hp ⊢
      by_cases hk : key' = key
      · subst hk
        dsimp only at hlookup
        rw [AList.lookup_insert] at hlookup
        cases hlookup
        rw [halive] at hdead
        cases hdead
      · dsimp only at hlookup
        rw [AList.lookup_insert_ne hk] at hlookup
        exact hu r' hr' hp key' q hlookup hdead
    · rw [update_heap_ne _ _ he] at hlookup hp ⊢
      exact hu r' hr' hp key' q hlookup hdead
  unfold Monitor.onPatientAdded
  cases hr : s.locations.lookup p.location with
  | some r => exact hput s r h
  | none =>
    refine hput _ s.created fun r' hr' hp key' q hlookup hdead => ?_
    obtain ⟨name, hname⟩ := mem_iterLocations.mp hr'
    replace hlookup : ((s.update s.created fun _ => .new p.location).heap r').patients.lookup key' =
      some q := hlookup
    replace hp : ((s.update s.created fun _ => .new p.location).heap r').paused = false := hp
    show key' ∈ ((s.update s.created fun _ => .new p.location).heap r').dead
    by_cases he : r' = s.created
    · rw [he, update_heap_self] at hlookup
      cases hlookup
    · rw [update_heap_ne _ _ he] at hlookup hp ⊢
      exact h r' (mem_iterLocations.mpr
        ⟨_, (hplaced.resident r' key' q hlookup).2.1⟩) hp key' q hlookup hdead

/-- The state of a patient changes, and it is not dead then. -/
theorem Told.mark (h : Told c s) (r : Ref) (key : String) (p : Patient) (st : PatientState)
    (hst : st ≠ .dead) : Told c (s.update r (.mark key p st)) := by
  intro r' hr' hp key' q hlookup hdead
  by_cases he : r' = r
  · subst he
    rw [update_heap_self] at hlookup hp ⊢
    by_cases hk : key' = key
    · subst hk
      unfold Location.mark at hlookup
      dsimp only at hlookup
      rw [AList.lookup_insert] at hlookup
      cases hlookup
      exact absurd hdead hst
    · unfold Location.mark at hlookup
      dsimp only at hlookup
      rw [AList.lookup_insert_ne hk] at hlookup
      exact h r' hr' hp key' q hlookup hdead
  · rw [update_heap_ne _ _ he] at hlookup hp ⊢
    exact h r' hr' hp key' q hlookup hdead

theorem Told.died (hoff : c.enableQuarantine = false) (h : Told c s) (k : Ref → Clerk → Clerk)
    (r : Ref) (key : String) (p : Patient) :
    Told c (patientDied c k r key { p with state := .dead } (s.update r (.mark key p .dead))) := by
  unfold patientDied
  rw [if_pos (by simp [hoff])]
  have hsettled := settled_notifyDeath (s.update r (.mark key p .dead)) r key
    { p with state := .dead }
  intro r' hr' hp key' q hlookup hdead
  rw [hsettled.frame.iterLocations] at hr'
  rw [hsettled.frame.residents] at hlookup
  have hpaused : (s.heap r').paused = false := by
    by_contra hnot
    replace hnot : (s.heap r').paused = true := by simpa using hnot
    by_cases he : r' = r
    · subst he
      unfold notifyDeath at hp
      rw [update_heap_self, if_pos (by exact hnot), update_heap_self] at hp
      rw [show ((s.heap r').mark key p .dead).paused = true from hnot] at hp
      cases hp
    · unfold notifyDeath patientDead at hp
      have hother : ((s.update r (.mark key p .dead)).heap r').paused = true := by
        rw [update_heap_ne _ _ he]
        exact hnot
      split at hp
      · rw [hother] at hp
        cases hp
      · split at hp
        · rw [hother] at hp
          cases hp
        · replace hp : (((s.update r (.mark key p .dead)).update r
            fun l => { l with dead := insert key l.dead }).heap r').paused = false := hp
          rw [update_heap_ne _ _ he, hother] at hp
          cases hp
  by_cases hk : r' = r ∧ key' = key
  · -- the coroner is called for the patient itself
    obtain ⟨rfl, rfl⟩ := hk
    unfold notifyDeath
    rw [if_neg (by rw [update_heap_self]; simpa [Location.mark] using hpaused)]
    split
    · assumption
    · simp [patientDead]
  · refine hsettled.flagged r' ?_
    by_cases he : r' = r
    · subst he
      rw [update_heap_self] at hlookup ⊢
      unfold Location.mark at hlookup
      dsimp only at hlookup
      rw [AList.lookup_insert_ne fun hsame => hk ⟨rfl, hsame⟩] at hlookup
      exact h r' hr' hpaused key' q hlookup hdead
    · rw [update_heap_ne _ _ he] at hlookup ⊢
      exact h r' hr' hpaused key' q hlookup hdead

theorem Told.resurrected (hoff : c.enableQuarantine = false) (h : Told c s)
    (k : Ref → Clerk → Clerk) (r : Ref) (key : String) (p : Patient) (history : List Notice) :
    Told c (patientResurrected c k r key
      { s.update r (.mark key p .alive) with history := history }) := by
  rw [patientResurrected_eq]
  dsimp only
  rw [if_pos (by simp [hoff])]
  have hmarked := h.mark r key p .alive fun he => by cases he
  intro r' hr' hp key' q hlookup hdead
  by_cases he : r' = r
  · subst he
    rw [update_heap_self] at hlookup hp ⊢
    refine Finset.mem_erase.mpr ⟨fun hk => ?_, hmarked r' hr' hp key' q hlookup hdead⟩
    rw [hk] at hlookup
    replace hlookup : ((s.update r' (.mark key p .alive)).heap r').patients.lookup key = some q :=
      hlookup
    rw [update_heap_self] at hlookup
    unfold Location.mark at hlookup
    dsimp only at hlookup
    rw [AList.lookup_insert] at hlookup
    cases hlookup
    cases hdead
  · rw [update_heap_ne _ _ he] at hlookup hp ⊢
    exact hmarked r' hr' hp key' q hlookup hdead

theorem Told.removed (hoff : c.enableQuarantine = false) (h : Told c s) (k : Ref → Clerk → Clerk)
    (r : Ref) (key : String) (p : Patient) : Told c (removePatient c k r key p s).2 := by
  have hremoved : (removePatient c k r key p s).2 = s.update r (.without key) := by
    unfold removePatient
    dsimp only
    rw [if_neg fun hon => by rw [hoff] at hon; cases hon.1]
    rfl
  rw [hremoved]
  intro r' hr' hp key' q hlookup hdead
  by_cases he : r' = r
  · subst he
    rw [update_heap_self] at hlookup hp ⊢
    have hk : key' ≠ key := by
      rintro rfl
      unfold Location.without at hlookup
      dsimp only at hlookup
      rw [AList.lookup_erase] at hlookup
      cases hlookup
    refine Finset.mem_erase.mpr ⟨hk, h r' hr' hp key' q ?_ hdead⟩
    exact (AList.lookup_erase_ne hk).symm.trans hlookup
  · rw [update_heap_ne _ _ he] at hlookup hp ⊢
    exact h r' hr' hp key' q hlookup hdead

end Feat.Agents.Monitor
