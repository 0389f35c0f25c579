import Feat.Agents.ClerkMatched

/- Deaths that the coroner has not heard of.

   A location flags the patients it notified the death of. The flag is there when the coroner
   was called since the patient was last alive, and only then (`Flagged`), so what is withheld
   can be seen from the location alone (`Awaiting`).

   Where the clerk isolates itself in the middle of pausing or resuming the locations, the
   first isolated one ends up paused (`Resting`), and the others may not. -/
namespace Feat.Agents.Monitor
open Hash Transition

variable {c : Config} {s t u : Clerk} {r : Ref}

/-! ## Flags -/

/-- Who is flagged is there, and the coroner was called. -/
structure Flagged (s : Clerk) : Prop where
  resident : ∀ r key, key ∈ (s.heap r).dead → key ∈ (s.heap r).patients
  reported : ∀ r key, key ∈ (s.heap r).dead → Outstanding s.history key

theorem Outstanding.concat {history : List Notice} {key : String} (h : Outstanding history key)
    {n : Notice} (hres : n ≠ .resurrected key) (hadd : n ≠ .added key) :
    Outstanding (history ++ [n]) key := by
  obtain ⟨xs, p, st, ys, rfl, hys, hys'⟩ := h
  refine ⟨xs, p, st, ys ++ [n], by simp, ?_, ?_⟩
  · simp [hys, hres.symm]
  · simp [hys', hadd.symm]

theorem outstanding_dead (history : List Notice) (key : String) (p : PatientState)
    (st : MonitorState) : Outstanding (history ++ [.dead key p st]) key :=
  ⟨history, p, st, [], by simp, by simp, by simp⟩

/-- An assignment that flags nobody and takes nobody away who is flagged. -/
theorem Flagged.update (h : Flagged s) (r : Ref) (f : Location → Location)
    (hdead : (f (s.heap r)).dead ⊆ (s.heap r).dead)
    (hpatients : ∀ key ∈ (f (s.heap r)).dead, key ∈ (s.heap r).patients →
      key ∈ (f (s.heap r)).patients) : Flagged (s.update r f) := by
  refine ⟨fun r' key hkey => ?_, fun r' key hkey => ?_⟩
  · by_cases hr : r' = r
    · subst hr
      rw [update_heap_self] at hkey ⊢
      exact hpatients key hkey (h.resident r' key (hdead hkey))
    · rw [update_heap_ne _ _ hr] at hkey ⊢
      exact h.resident r' key hkey
  · by_cases hr : r' = r
    · subst hr
      rw [update_heap_self] at hkey
      exact h.reported r' key (hdead hkey)
    · rw [update_heap_ne _ _ hr] at hkey
      exact h.reported r' key hkey

theorem flagged_closed : Closed Flagged where
  located s r st h := h.update r (fun l => { l with state := st }) (Finset.Subset.refl _)
    fun _ _ hp => hp
  paused s r b h := h.update r (fun l => { l with paused := b }) (Finset.Subset.refl _)
    fun _ _ hp => hp
  monitored _ _ h := ⟨h.resident, h.reported⟩
  scheduled _ _ _ _ _ h := ⟨h.resident, h.reported⟩
  exhausted _ h := ⟨h.resident, h.reported⟩
  notified s r key p h hp _ := by
    unfold notifyDeath
    split
    · exact h
    · split
      · exact h
      · refine ⟨fun r' key' hkey => ?_, fun r' key' hkey => ?_⟩
        · by_cases hr : r' = r
          · subst hr
            simp only [patientDead, update_heap_self, Finset.mem_insert] at hkey ⊢
            obtain rfl | hkey := hkey
            · exact AList.lookup_isSome.mp (by rw [hp]; rfl)
            · exact h.resident r' key' hkey
          · simp only [patientDead, update_heap_ne _ _ hr] at hkey ⊢
            exact h.resident r' key' hkey
        · have hold : key' ∈ (s.heap r').dead ∨ key' = key := by
            by_cases hr : r' = r
            · subst hr
              simp only [patientDead, update_heap_self, Finset.mem_insert] at hkey
              exact hkey.symm
            · simp only [patientDead, update_heap_ne _ _ hr] at hkey
              exact .inl hkey
          show Outstanding (s.history ++ [.dead key p.state s.state]) key'
          obtain hold | rfl := hold
          · exact (h.reported r' key' hold).concat (fun he => by cases he) fun he => by cases he
          · exact outstanding_dead _ _ _ _

/-- What an event assigns before it pauses, resumes or puts into quarantine. -/
def prepared (s : Clerk) : Event → Clerk
  | .added key location period =>
    onPatientAdded key ⟨location, period, .alive⟩ { s with history := s.history ++ [.added key] }
  | .removed key =>
    match s.patient key with
    | some (r, _) => Clerk.update { s with patients := s.patients.erase key } r (.without key)
    | none => s
  | .dying key | .relapsed key =>
    match s.patient key with
    | some (r, p) => s.update r (.mark key p .dying)
    | none => s
  | .died key =>
    match s.patient key with
    | some (r, p) => s.update r (.mark key p .dead)
    | none => s
  | .resurrected key =>
    match s.patient key with
    | some (r, p) =>
      Clerk.update { s.update r (.mark key p .alive) with
        history := s.history ++ [.resurrected key] } r (.forget key)
    | none => s
  | .disconnected | .reconnected | .fired _ => s

/-- A closed property that does not look at the known locations is kept by what follows. -/
theorem step_closed {P : Clerk → Prop} (hP : Closed P)
    (hdrop : ∀ u locations, P u → P { u with locations := locations }) {e : Event}
    (hplaced : Placed s) (hstep : step c s e = some t) (h : P (prepared s e)) : P t := by
  have hch : ∀ depth r u, P u → P (locationStateChanged c depth r u) :=
    fun _ _ _ hu => closed_locationStateChanged hP hu
  cases e with
  | added key location period =>
    dsimp only [step] at hstep
    split at hstep
    · cases hstep
    · obtain rfl := Option.some.inj hstep
      exact h
  | removed key =>
    obtain ⟨⟨r, p⟩, hp, hstep⟩ := Option.bind_eq_some_iff.mp hstep
    obtain rfl := Option.some.inj hstep
    obtain ⟨-, hloc, hpl⟩ := hplaced.resident r key p (patient_eq_some.mp hp).2
    dsimp only [prepared] at h
    rw [hp] at h
    have hremoved : P (removePatient c (locationStateChanged c (s.locations.keys.length + 1)) r key p
        { s with patients := s.patients.erase key }).2 := by
      unfold removePatient
      dsimp only
      split
      · exact closed_checkQuarantine hP (hch _) h
      · exact h
    rw [onPatientRemoved_known (hpl ▸ hloc)]
    dsimp only
    split
    · exact hdrop _ _ hremoved
    · exact hremoved
  | dying key =>
    obtain ⟨⟨r, p⟩, hp, hstep⟩ := Option.bind_eq_some_iff.mp hstep
    dsimp only [prepared] at hstep h
    rw [hp] at h
    split at hstep
    · obtain rfl := Option.some.inj hstep
      exact h
    · cases hstep
  | died key =>
    obtain ⟨⟨r, p⟩, hp, hstep⟩ := Option.bind_eq_some_iff.mp hstep
    dsimp only [prepared] at hstep h
    rw [hp] at h
    split at hstep
    · obtain rfl := Option.some.inj hstep
      have hnotify : P (notifyDeath r key { p with state := .dead }
          (s.update r (.mark key p .dead))) := by
        refine hP.notified _ r key _ h ?_ rfl
        rw [update_heap_self]
        exact AList.lookup_insert _
      unfold patientDied
      split
      · exact hnotify
      · split
        · exact hnotify
        · exact closed_checkQuarantine hP (hch _) h
    · cases hstep
  | resurrected key =>
    obtain ⟨⟨r, p⟩, hp, hstep⟩ := Option.bind_eq_some_iff.mp hstep
    dsimp only [prepared] at hstep h
    rw [hp] at h
    split at hstep
    · obtain rfl := Option.some.inj hstep
      rw [patientResurrected_eq]
      dsimp only at h ⊢
      split
      · exact h
      · split
        · split
          · exact closed_setState hP (hch _) h
          · exact h
        · split
          · exact closed_setState hP (hch _) h
          · split
            · exact closed_setState hP (hch _) h
            · exact closed_locationRecovering hP (hch _) (closed_setState hP (hch _) h)
    · cases hstep
  | relapsed key =>
    obtain ⟨⟨r, p⟩, hp, hstep⟩ := Option.bind_eq_some_iff.mp hstep
    dsimp only [prepared] at hstep h
    rw [hp] at h
    split at hstep
    · obtain rfl := Option.some.inj hstep
      exact h
    · cases hstep
  | disconnected =>
    obtain rfl := Option.some.inj hstep
    exact closed_onDisconnected hP (hch _) h
  | reconnected =>
    obtain rfl := Option.some.inj hstep
    exact closed_onReconnected hP (hch _) h
  | fired id =>
    obtain ⟨⟨delay, call⟩, -, hstep⟩ := Option.bind_eq_some_iff.mp hstep
    have herased := hP.scheduled s (s.calls.erase id) s.locationCalls s.isolatedCall s.issued h
    cases call with
    | liftLocation r =>
      obtain rfl := Option.some.inj hstep
      exact closed_quarantineLifted hP (hch _) herased
    | liftIsolation =>
      obtain rfl := Option.some.inj hstep
      exact closed_isoLiftQuarantine hP (hch _) herased

theorem Flagged.mark (h : Flagged s) (r : Ref) (key : String) (p : Patient) (st : PatientState) :
    Flagged (s.update r (.mark key p st)) :=
  h.update r _ (Finset.Subset.refl _) fun _ _ hp => (AList.mem_insert _).mpr (.inr hp)

/-- Something is told of a patient that is flagged nowhere. -/
theorem Flagged.noticed (h : Flagged s) {n : Notice}
    (hn : ∀ r key, key ∈ (s.heap r).dead → n ≠ .resurrected key ∧ n ≠ .added key) :
    Flagged { s with history := s.history ++ [n] } :=
  ⟨h.resident, fun r key hkey => (h.reported r key hkey).concat (hn r key hkey).1 (hn r key hkey).2⟩

theorem Flagged.onPatientAdded (h : Flagged s) {key : String} (p : Patient) :
    Flagged (onPatientAdded key p s) := by
  have hput : ∀ (v : Clerk) (r : Ref), Flagged v →
      Flagged (v.update r fun l => { l with patients := l.patients.insert key p }) :=
    fun v r hv => hv.update r _ (Finset.Subset.refl _) fun _ _ hp => (AList.mem_insert _).mpr (.inr hp)
  unfold Monitor.onPatientAdded
  cases s.locations.lookup p.location with
  | some r => exact ⟨(hput s r h).resident, (hput s r h).reported⟩
  | none =>
    have hmade : Flagged (s.update s.created fun _ => .new p.location) :=
      h.update s.created _ (Finset.empty_subset _) fun key hkey => absurd hkey (Finset.notMem_empty key)
    have hboth := hput _ s.created hmade
    exact ⟨hboth.resident, hboth.reported⟩

/-- A patient is flagged at its own location only. -/
theorem Flagged.at (h : Flagged s) (hplaced : Placed s) {key : String}
    (hkey : key ∈ (s.heap r).dead) : s.patients.lookup key = some r := by
  obtain ⟨p, hp⟩ := Option.isSome_iff_exists.mp (AList.lookup_isSome.mpr (h.resident r key hkey))
  exact (hplaced.resident r key p hp).1

theorem flagged_prepared (h : Flagged s) (hplaced : Placed s) {e : Event}
    (hnew : ∀ key location period, e = .added key location period → key ∉ s.patients) :
    Flagged (prepared s e) := by
  cases e with
  | added key location period =>
    refine Flagged.onPatientAdded (s := { s with history := s.history ++ [.added key] }) ?_ _
    refine h.noticed fun r key' hkey => ⟨fun he => (by cases he), fun he => ?_⟩
    cases he
    exact hnew key location period rfl
      (AList.lookup_isSome.mp (by rw [h.at hplaced hkey]; rfl))
  | removed key =>
    dsimp only [prepared]
    split
    · have hgone : Flagged { s with patients := s.patients.erase key } := ⟨h.resident, h.reported⟩
      refine hgone.update _ (.without key) (Finset.erase_subset _ _) fun key' hkey hp => ?_
      exact AList.mem_erase.mpr ⟨Finset.ne_of_mem_erase hkey, hp⟩
    · exact h
  | dying key =>
    dsimp only [prepared]
    split
    · exact h.mark _ _ _ _
    · exact h
  | relapsed key =>
    dsimp only [prepared]
    split
    · exact h.mark _ _ _ _
    · exact h
  | died key =>
    dsimp only [prepared]
    split
    · exact h.mark _ _ _ _
    · exact h
  | resurrected key =>
    dsimp only [prepared]
    split
    · rename_i r p hp
      -- the flag of the patient goes, and the others heard nothing new
      have hmarked := h.mark r key p .alive
      have hat := (patient_eq_some.mp hp).1
      refine ⟨fun r' key' hkey => ?_, fun r' key' hkey => ?_⟩
      · have hforgot := hmarked.update r (.forget key) (Finset.erase_subset _ _) fun _ _ hp => hp
        exact hforgot.resident r' key' hkey
      · have hbefore : key' ∈ (s.heap r').dead ∧ key' ≠ key := by
          by_cases hr : r' = r
          · subst hr
            rw [update_heap_self] at hkey
            obtain ⟨hne, hkey⟩ := Finset.mem_erase.mp hkey
            rw [update_heap_self] at hkey
            exact ⟨hkey, hne⟩
          · rw [update_heap_ne _ _ hr] at hkey
            replace hkey : key' ∈ ((s.update r (.mark key p .alive)).heap r').dead := hkey
            rw [update_heap_ne _ _ hr] at hkey
            refine ⟨hkey, fun he => hr ?_⟩
            rw [he] at hkey
            exact Option.some.inj ((h.at hplaced hkey).symm.trans hat)
        refine (h.reported r' key' hbefore.1).concat (fun he => hbefore.2 ?_) fun he => by cases he
        cases he
        rfl
    · exact h
  | disconnected => exact h
  | reconnected => exact h
  | fired id => exact h

theorem step_flagged {e : Event} (h : Flagged s) (hplaced : Placed s)
    (hstep : step c s e = some t) : Flagged t := by
  refine step_closed flagged_closed (fun u _ hu => ⟨hu.resident, hu.reported⟩) hplaced hstep
    (flagged_prepared h hplaced ?_)
  rintro key location period rfl hin
  dsimp only [step] at hstep
  rw [if_pos hin] at hstep
  cases hstep

theorem new_flagged : Flagged .new :=
  ⟨fun _ _ h => absurd h (Finset.notMem_empty _), fun _ _ h => absurd h (Finset.notMem_empty _)⟩

/-! ## What is withheld -/

/-- A death is withheld, and nobody is dying that would be waited for. -/
def Awaiting (c : Config) (loc : Location) : Prop :=
  loc.countPatients c.order .dying = 0 ∧ ∃ q ∈ loc.iterPatients c.order .dead, q.1 ∉ loc.dead

instance (loc : Location) : Decidable (Awaiting c loc) := inferInstanceAs (Decidable (_ ∧ _))

theorem awaiting_iff {loc : Location} :
    Awaiting c loc ↔ (∀ key p, loc.patients.lookup key = some p → p.state ≠ .dying) ∧
      ∃ key p, loc.patients.lookup key = some p ∧ p.state = .dead ∧ key ∉ loc.dead := by
  unfold Awaiting
  rw [countPatients_eq_zero]
  refine and_congr_right fun _ => ⟨fun ⟨q, hq, hnot⟩ => ?_, fun ⟨key, p, hp, hdead, hnot⟩ => ?_⟩
  · obtain ⟨hp, hdead⟩ := mem_iterPatients.mp hq
    exact ⟨q.1, q.2, hp, hdead, hnot⟩
  · exact ⟨(key, p), mem_iterPatients.mpr ⟨hp, hdead⟩, hnot⟩

/-- Nothing more is withheld where there are the same patients and no fewer flags. -/
theorem Awaiting.of_flags {loc loc' : Location} (h : Awaiting c loc')
    (hpatients : loc'.patients = loc.patients) (hdead : loc.dead ⊆ loc'.dead) :
    Awaiting c loc := by
  obtain ⟨hdying, key, p, hp, hst, hnot⟩ := awaiting_iff.mp h
  rw [hpatients] at hdying hp
  exact awaiting_iff.mpr ⟨hdying, key, p, hp, hst, fun hin => hnot (hdead hin)⟩

theorem Settled.awaiting (h : Settled s t) (ht : Awaiting c (t.heap r)) :
    Awaiting c (s.heap r) := ht.of_flags (h.frame.residents r) (h.flagged r)

theorem bringOutYourDead_same (r : Ref) (s : Clerk) :
    (bringOutYourDead c r s).calls = s.calls ∧ (bringOutYourDead c r s).state = s.state ∧
      ∀ r', ((bringOutYourDead c r s).heap r').paused = (s.heap r').paused ∧
        ((bringOutYourDead c r s).heap r').state = (s.heap r').state := by
  have hnotify : ∀ (u : Clerk) key p, (notifyDeath r key p u).calls = u.calls ∧
      (notifyDeath r key p u).state = u.state ∧
        ∀ r', ((notifyDeath r key p u).heap r').paused = (u.heap r').paused ∧
          ((notifyDeath r key p u).heap r').state = (u.heap r').state := by
    intro u key p
    unfold notifyDeath
    split
    · exact ⟨rfl, rfl, fun _ => ⟨rfl, rfl⟩⟩
    · split
      · exact ⟨rfl, rfl, fun _ => ⟨rfl, rfl⟩⟩
      · refine ⟨rfl, rfl, fun r' => ?_⟩
        by_cases hr : r' = r
        · subst hr
          simp [patientDead]
        · simp [patientDead, update_heap_ne _ _ hr]
  unfold bringOutYourDead
  generalize (s.heap r).iterPatients c.order .dead = l
  induction l generalizing s with
  | nil => exact ⟨rfl, rfl, fun _ => ⟨rfl, rfl⟩⟩
  | cons q l ih =>
    obtain ⟨hcalls, hstate, hheap⟩ := ih (notifyDeath r q.1 q.2 s)
    obtain ⟨hcalls', hstate', hheap'⟩ := hnotify s q.1 q.2
    refine ⟨hcalls.trans hcalls', hstate.trans hstate', fun r' => ?_⟩
    exact ⟨(hheap r').1.trans (hheap' r').1, (hheap r').2.trans (hheap' r').2⟩

/-- The coroner is called for all the dead of a location that is not paused. -/
theorem bringOutYourDead_flags (hpaused : (s.heap r).paused = false) {key : String} {p : Patient}
    (hp : (s.heap r).patients.lookup key = some p) (hdead : p.state = .dead) :
    key ∈ ((bringOutYourDead c r s).heap r).dead := by
  have hnotify : ∀ (u : Clerk) key p, (u.heap r).paused = false →
      key ∈ ((notifyDeath r key p u).heap r).dead ∧
        ((notifyDeath r key p u).heap r).paused = false := by
    intro u key p hu
    unfold notifyDeath
    rw [if_neg (by simp [hu])]
    split
    · rename_i hin
      exact ⟨hin, hu⟩
    · simp [patientDead, hu]
  have hfold : ∀ (l : List (String × Patient)) (u : Clerk), (u.heap r).paused = false →
      (∃ q ∈ l, q.1 = key) ∨ key ∈ (u.heap r).dead →
      key ∈ ((l.foldl (fun s p => notifyDeath r p.1 p.2 s) u).heap r).dead := by
    intro l
    induction l with
    | nil =>
      intro u _ h
      refine h.resolve_left ?_
      rintro ⟨_, hq, _⟩
      exact List.not_mem_nil hq
    | cons q l ih =>
      intro u hu h
      obtain ⟨hflag, hstill⟩ := hnotify u q.1 q.2 hu
      refine ih _ hstill ?_
      obtain ⟨q', hq', rfl⟩ | hin := h
      · obtain rfl | hq' := List.mem_cons.mp hq'
        · exact .inr hflag
        · exact .inl ⟨q', hq', rfl⟩
      · exact .inr ((settled_notifyDeath u r q.1 q.2).flagged r hin)
  exact hfold _ s hpaused (.inl ⟨(key, p), mem_iterPatients.mpr ⟨hp, hdead⟩, rfl⟩)

theorem not_awaiting_bringOutYourDead (hpaused : (s.heap r).paused = false) :
    ¬ Awaiting c ((bringOutYourDead c r s).heap r) := by
  intro h
  obtain ⟨-, key, p, hp, hdead, hnot⟩ := awaiting_iff.mp h
  rw [(settled_bringOutYourDead s r).frame.residents] at hp
  exact hnot (bringOutYourDead_flags hpaused hp hdead)

end Feat.Agents.Monitor
