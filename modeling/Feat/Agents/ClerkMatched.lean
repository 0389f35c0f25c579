import Feat.Agents.ClerkForgotten
import Feat.Agents.ClerkIsolation

/- The pending calls of a clerk and its locations.

   The calls match the locations (`Matched`) in every state of a run if and only if no location
   loses its last patient while a call is pending for it (`calls_matched_iff`): the clerk drops
   the location then and leaves the call. What such a call does to a clerk that got isolated
   in between is run in `forgotten_call`. -/
namespace Feat.Agents.Monitor
open Hash Transition

variable {c : Config} {s t : Clerk} {r : Ref}

/-- The pending calls match the locations. -/
structure Matched (c : Config) (s : Clerk) : Prop where
  /-- A call is for the location that is registered under its name. -/
  registered : ∀ r, s.Lifting r → s.locations.lookup (s.heap r).name = some r
  one : ∀ r id id' delay delay', s.calls.lookup id = some (delay, .liftLocation r) →
    s.calls.lookup id' = some (delay', .liftLocation r) → id = id'
  /-- A location that left has no call, and whatever it holds, nothing else depends on it. -/
  gone : ∀ r < s.created, (∀ name, s.locations.lookup name ≠ some r) →
    ¬ s.Lifting r ∧ ∀ l e, step c (s.put r l) e = (step c s e).map fun t => t.put r l
  covered : ∀ name r, s.locations.lookup name = some r → (s.heap r).paused = false →
    (s.heap r).state ≠ .normal → ¬ s.state.Blind → s.Lifting r
  isolation : s.LiftingIsolation ↔ s.state = .isolated

/-- The patient is the last one of the location. -/
def Last (s : Clerk) (key : String) (r : Ref) : Prop := ∀ key' ∈ (s.heap r).patients, key' = key

/-- A location that loses its last patient has no call pending. -/
def NoCallLeft (s : Clerk) : Event → Prop
  | .removed key => ∀ q ∈ s.patient key, Last s key q.1 → ¬ s.Lifting q.1
  | _ => True

/-! ## Where patients are -/

/-- The patients of the clerk are at their locations. -/
def Housed (s : Clerk) : Prop :=
  ∀ key r, s.patients.lookup key = some r → key ∈ (s.heap r).patients

theorem Frame.housed (h : Frame s t) (hs : Housed s) : Housed t := by
  intro key r hr
  rw [h.patients] at hr
  rw [h.residents]
  exact hs key r hr

theorem Housed.mark (h : Housed s) (r : Ref) (key : String) (p : Patient) (st : PatientState) :
    Housed (s.update r (.mark key p st)) := by
  intro key' r' hr'
  by_cases hr : r' = r
  · subst hr
    rw [update_heap_self]
    exact (AList.mem_insert _).mpr (.inr (h key' r' hr'))
  · rw [update_heap_ne _ _ hr]
    exact h key' r' hr'

theorem frame_locate (s : Clerk) (r : Ref) (st : LocationState) : Frame s (s.locate r st) :=
  (Frame.refl s).update rfl rfl

theorem frame_afterDeath (s : Clerk) (r : Ref) : Frame s (s.afterDeath c r) := by
  unfold Clerk.afterDeath
  split
  · exact frame_locate s r _
  · exact .refl s

theorem frame_afterRemoval (s : Clerk) (r : Ref) (p : Patient) :
    Frame s (s.afterRemoval c r p) := by
  unfold Clerk.afterRemoval
  split
  · exact frame_locate s r _
  · exact .refl s

theorem Housed.onPatientAdded (h : Housed s) (hplaced : Placed s) (hnew : key ∉ s.patients)
    (p : Patient) : Housed (onPatientAdded key p s) := by
  -- with the location made or found, what is left is to put the patient there
  have hput : ∀ (u : Clerk) (r : Ref), Housed u → key ∉ u.patients →
      Housed { u.update r (fun l => { l with patients := l.patients.insert key p }) with
        patients := u.patients.insert key r } := by
    intro u r hu hfree key' r' hr'
    by_cases hk : key' = key
    · subst hk
      dsimp only at hr' ⊢
      rw [AList.lookup_insert] at hr'
      cases hr'
      rw [update_heap_self]
      exact (AList.mem_insert _).mpr (.inl rfl)
    · dsimp only at hr' ⊢
      rw [AList.lookup_insert_ne hk] at hr'
      by_cases hr : r' = r
      · subst hr
        rw [update_heap_self]
        exact (AList.mem_insert _).mpr (.inr (hu key' r' hr'))
      · rw [update_heap_ne _ _ hr]
        exact hu key' r' hr'
  unfold Monitor.onPatientAdded
  cases hr : s.locations.lookup p.location with
  | some r => exact hput s r h hnew
  | none =>
    refine hput _ s.created (fun key' r' hr' => ?_) hnew
    have hin := h key' r' hr'
    obtain ⟨q, hq⟩ := Option.isSome_iff_exists.mp (AList.lookup_isSome.mpr hin)
    have hne : r' ≠ s.created :=
      Nat.ne_of_lt (hplaced.named _ _ (hplaced.resident r' key' q hq).2.1).2
    show key' ∈ ((s.update s.created (fun _ => .new p.location)).heap r').patients
    rw [update_heap_ne _ _ hne]
    exact hin

theorem Housed.without (h : Housed s) (r : Ref) (key : String) :
    Housed (Clerk.update { s with patients := s.patients.erase key } r (.without key)) := by
  intro key' r' hr'
  have hk : key' ≠ key := by
    rintro rfl
    have hlookup : (s.patients.erase key').lookup key' = some r' := hr'
    rw [AList.lookup_erase] at hlookup
    cases hlookup
  have hbefore : s.patients.lookup key' = some r' := (AList.lookup_erase_ne hk).symm.trans hr'
  by_cases hr : r' = r
  · subst hr
    rw [update_heap_self]
    exact AList.mem_erase.mpr ⟨hk, h key' r' hbefore⟩
  · rw [update_heap_ne _ _ hr]
    exact h key' r' hbefore

theorem housed_direct (h : Housed s) (hplaced : Placed s) {e : Event}
    (hnew : ∀ key location period, e = .added key location period → key ∉ s.patients) :
    Housed (direct c s e) := by
  cases e with
  | added key location period =>
    exact Housed.onPatientAdded (s := { s with history := s.history ++ [.added key] }) h
      ⟨hplaced.named, hplaced.resident⟩ (hnew key location period rfl) _
  | removed key =>
    dsimp only [direct]
    split
    · exact (frame_afterRemoval _ _ _).housed (h.without _ key)
    · exact h
  | dying key =>
    dsimp only [direct]
    split
    · exact h.mark _ _ _ _
    · exact h
  | relapsed key =>
    dsimp only [direct]
    split
    · exact h.mark _ _ _ _
    · exact h
  | died key =>
    dsimp only [direct]
    split
    · exact (frame_afterDeath _ _).housed (h.mark _ _ _ _)
    · exact h
  | resurrected key =>
    dsimp only [direct]
    split
    · rename_i r p hp
      have hmarked := h.mark r key p .alive
      have hnoticed : Housed { s.update r (.mark key p .alive) with
          history := s.history ++ [.resurrected key] } := hmarked
      exact (frame_locate _ _ _).housed (((Frame.refl _).update rfl rfl).housed hnoticed)
    · exact h
  | disconnected => exact h
  | reconnected => exact h
  | fired id =>
    dsimp only [direct]
    split
    · exact (frame_locate { s with calls := s.calls.erase id } _ _).housed h
    · exact h

theorem step_housed {e : Event} (h : Housed s) (hplaced : Placed s) (hstep : step c s e = some t) :
    Housed t := by
  have hnew : ∀ key location period, e = .added key location period → key ∉ s.patients := by
    rintro key location period rfl hin
    dsimp only [step] at hstep
    rw [if_pos hin] at hstep
    cases hstep
  obtain ⟨v, hv, ht⟩ := step_settled hplaced hstep
  have hhoused := hv.frame.housed (housed_direct (c := c) h hplaced hnew)
  obtain rfl | ⟨_, _, _, _, _, _, rfl⟩ := ht
  · exact hhoused
  · exact hhoused

/-! ## Locations that leave -/

/-- The clerk drops the location of the last patient, and nothing else happens. -/
theorem onPatientRemoved_last {k : Ref → Clerk → Clerk} {key : String} {p : Patient}
    (hplaced : Placed s) (hp : s.patient key = some (r, p)) (hlast : Last s key r) :
    onPatientRemoved c k key p s =
      { Clerk.update { s with patients := s.patients.erase key } r (.without key) with
        locations := s.locations.erase (s.heap r).name } := by
  obtain ⟨-, hpat⟩ := patient_eq_some.mp hp
  obtain ⟨-, hloc, hpl⟩ := hplaced.resident r key p hpat
  have hempty : ∀ key', key' ∉ ((s.heap r).without key).patients := by
    intro key' hin
    obtain ⟨hne, hin⟩ := AList.mem_erase.mp hin
    exact hne (hlast key' hin)
  have hheap : (Clerk.update { s with patients := s.patients.erase key } r (.without key)).heap r =
      (s.heap r).without key := update_heap_self _ _ _
  have hkeys : ((s.heap r).without key).patients.keys.length = 0 := by
    refine List.length_eq_zero_iff.mpr (List.eq_nil_iff_forall_not_mem.mpr fun key' hin => ?_)
    exact hempty key' (AList.mem_keys.mpr hin)
  have hnobody : ¬ Isolates c
      ((Clerk.update { s with patients := s.patients.erase key } r (.without key)).heap r) := by
    intro hisolates
    refine absurd (countPatients_eq_zero.mpr fun key' p' hp' => ?_) (Nat.ne_of_gt hisolates.2.1)
    rw [hheap] at hp'
    exact absurd (AList.lookup_isSome.mp (by rw [hp']; rfl)) (hempty key')
  rw [onPatientRemoved_known (hpl ▸ hloc)]
  unfold removePatient
  show (let u : Bool × Clerk :=
      let s' := Clerk.update { s with patients := s.patients.erase key } r (.without key)
      let s' := if c.enableQuarantine = true ∧ (s'.heap r).state = .normal ∧ p.state ≠ .dead then
          checkQuarantine c k r s'
        else s'
      ((s'.heap r).patients.keys.length = 0, s')
    if u.1 then { u.2 with locations := u.2.locations.erase (u.2.heap r).name } else u.2) = _
  dsimp only
  rw [checkQuarantine_eq hnobody, ite_self, hheap, if_pos (by simpa using hkeys)]
  rfl

theorem subset_onPatientAdded (key : String) (p : Patient) (hr : r ∈ iterLocations c s) :
    r ∈ iterLocations c (onPatientAdded key p s) := by
  obtain ⟨name, hname⟩ := mem_iterLocations.mp hr
  unfold onPatientAdded
  cases hlookup : s.locations.lookup p.location with
  | some r' => exact mem_iterLocations.mpr ⟨name, hname⟩
  | none =>
    refine mem_iterLocations.mpr ⟨name, ?_⟩
    show (s.locations.insert p.location s.created).lookup name = some r
    rw [AList.lookup_insert_ne, hname]
    rintro rfl
    rw [hlookup] at hname
    cases hname

/-- The clerk keeps the locations it knows but that of the last patient. -/
theorem step_known {e : Event} (hplaced : Placed s) (hstep : step c s e = some t)
    (hr : r ∈ iterLocations c s) :
    r ∈ iterLocations c t ∨
      ∃ key p, e = .removed key ∧ s.patient key = some (r, p) ∧ Last s key r := by
  have hdirect : r ∈ iterLocations c (direct c s e) := by
    cases e with
    | added key location period =>
      exact subset_onPatientAdded (s := { s with history := s.history ++ [.added key] }) key _ hr
    | removed key =>
      dsimp only [direct]
      split
      · rw [(frame_afterRemoval _ _ _).iterLocations]
        exact hr
      · exact hr
    | died key =>
      dsimp only [direct]
      split
      · rw [(frame_afterDeath _ _).iterLocations]
        exact hr
      · exact hr
    | dying key => dsimp only [direct]; split <;> exact hr
    | relapsed key => dsimp only [direct]; split <;> exact hr
    | resurrected key => dsimp only [direct]; split <;> exact hr
    | disconnected => exact hr
    | reconnected => exact hr
    | fired id => dsimp only [direct]; split <;> exact hr
  obtain ⟨v, hv, ht⟩ := step_settled hplaced hstep
  have hrv : r ∈ iterLocations c v := by
    rw [hv.frame.iterLocations]
    exact hdirect
  obtain rfl | ⟨key, r', p, rfl, hp, hempty, rfl⟩ := ht
  · exact .inl hrv
  · have hlast : Last s key r' := by
      have hresidents := hv.frame.residents r'
      dsimp only [direct] at hresidents
      rw [hp] at hresidents
      dsimp only at hresidents
      rw [(frame_afterRemoval _ _ _).residents, update_heap_self] at hresidents
      rw [hresidents] at hempty
      intro key' hin
      by_contra hne
      have hleft : key' ∈ ((s.heap r').without key).patients := AList.mem_erase.mpr ⟨hne, hin⟩
      have hpos := List.length_pos_of_mem (AList.mem_keys.mp hleft)
      exact absurd hempty (Nat.ne_of_gt hpos)
    by_cases hsame : r = r'
    · subst hsame
      exact .inr ⟨key, p, rfl, hp, hlast⟩
    · left
      obtain ⟨name, hname⟩ := mem_iterLocations.mp hrv
      refine mem_iterLocations.mpr ⟨name, ?_⟩
      have hnamed : (v.heap r').name = (s.heap r').name := by
        rw [hv.frame.name]
        dsimp only [direct]
        rw [hp]
        dsimp only
        rw [(frame_afterRemoval _ _ _).name, update_heap_self]
        rfl
      have hat : v.locations.lookup (v.heap r').name = some r' := by
        rw [hnamed, hv.frame.locations]
        dsimp only [direct]
        rw [hp]
        dsimp only
        rw [(frame_afterRemoval _ _ _).locations]
        exact (hplaced.resident r' key p (patient_eq_some.mp hp).2).2.1
      show (v.locations.erase (v.heap r').name).lookup name = some r
      rw [AList.lookup_erase_ne, hname]
      rintro rfl
      rw [hat] at hname
      exact hsame (Option.some.inj hname).symm

/-! ## Runs -/

/-- What the steps keep that leave no call. -/
structure InOrder (c : Config) (s : Clerk) : Prop where
  placed : Placed s
  reported : Reported s
  housed : Housed s
  held : Held c (fun _ => False) (fun r => r ∈ iterLocations c s) s

theorem InOrder.matched (h : InOrder c s) : Matched c s := by
  have hunknown : ∀ r, (∀ name, s.locations.lookup name ≠ some r) → r ∉ iterLocations c s := by
    intro r hr hin
    obtain ⟨name, hname⟩ := mem_iterLocations.mp hin
    exact hr name hname
  refine ⟨fun r hl => ?_, fun r _ _ _ _ hid hid' => h.held.indexed.unique hid hid',
    fun r hmade hgone => ?_, fun name r hname hpaused hstate hblind => ?_, h.held.isolation⟩
  · obtain ⟨name, hname⟩ := mem_iterLocations.mp (h.held.allowed r hl)
    rw [h.held.named name r hname]
    exact hname
  · have hq := hunknown r hgone
    have hcall : ¬ s.Lifting r := fun hl => hq (h.held.allowed r hl)
    refine ⟨hcall, fun l e => step_put hq hmade (fun key hkey => ?_) hcall l e⟩
    -- a patient that is there would make the location known
    obtain ⟨p, hp⟩ := Option.isSome_iff_exists.mp (AList.lookup_isSome.mpr (h.housed key r hkey))
    exact hgone _ (h.placed.resident r key p hp).2.1
  · obtain ⟨hrecovering, hisolated⟩ :=
      h.held.covered r (mem_iterLocations.mpr ⟨name, hname⟩) id hpaused
    cases hst : (s.heap r).state with
    | normal => exact absurd hst hstate
    | recovering => exact hrecovering hst
    | isolated => exact hisolated hst fun hs => hblind (.inr hs)

theorem step_inOrder {e : Event} (h : InOrder c s) (hguard : NoCallLeft s e)
    (hstep : step c s e = some t) : InOrder c t := by
  obtain ⟨hplaced, hreported⟩ := step_reported ⟨h.placed, h.reported⟩ hstep
  have hmade : ∀ r, r ∈ iterLocations c s → r < s.created := by
    intro r hr
    obtain ⟨name, hname⟩ := mem_iterLocations.mp hr
    exact (h.placed.named name r hname).2
  have hheld := step_held h.held h.placed hmade hstep
  refine ⟨hplaced, hreported, step_housed h.housed h.placed hstep, hheld.named, hheld.indexed,
    hheld.isolation, hheld.off, hheld.covered, fun r hl => ?_, fun _ hr => hr⟩
  obtain hr | hr := hheld.allowed r hl
  · obtain hr | ⟨key, p, rfl, hp, hlast⟩ := step_known h.placed hstep hr
    · exact hr
    · -- the location had no call when it left, and none was made
      refine absurd ?_ (hguard (r, p) hp hlast)
      obtain ⟨rp, hp', hstep⟩ := Option.bind_eq_some_iff.mp hstep
      rw [hp] at hp'
      cases hp'
      obtain rfl := Option.some.inj hstep
      rw [onPatientRemoved_last h.placed hp hlast] at hl
      exact hl
  · exact hr

/-- A location that leaves with a call pending is the location of a call that is not
    registered. -/
theorem step_unmatched {e : Event} (h : InOrder c s) (hguard : ¬ NoCallLeft s e)
    (hstep : step c s e = some t) : ¬ Matched c t := by
  cases e with
  | removed key =>
    obtain ⟨⟨r, p⟩, hp, hstep⟩ := Option.bind_eq_some_iff.mp hstep
    obtain rfl := Option.some.inj hstep
    have hleft : Last s key r ∧ s.Lifting r := by
      by_contra hnot
      refine hguard fun q hq hlast hl => hnot ?_
      rw [hp] at hq
      cases hq
      exact ⟨hlast, hl⟩
    intro hmatched
    rw [onPatientRemoved_last h.placed hp hleft.1] at hmatched
    have hregistered := hmatched.registered r hleft.2
    have hname : ((Clerk.update { s with patients := s.patients.erase key } r
        (.without key)).heap r).name = (s.heap r).name := by
      rw [update_heap_self]
      rfl
    rw [hname, AList.lookup_erase] at hregistered
    cases hregistered
  | added | dying | died | resurrected | relapsed | disconnected | reconnected | fired =>
    exact absurd trivial hguard

theorem new_inOrder : InOrder c .new :=
  ⟨new_reported.1, new_reported.2, fun _ _ h => (by cases h), new_held⟩

/-- The calls match the locations throughout a run if and only if no location loses its last
    patient while a call is pending for it. -/
theorem calls_matched_iff (c : Config) (es : List Event) (s : Clerk) :
    Run (Ending (Matched c) (Defined (step c))) .new es s ↔
      Run (Guarded NoCallLeft (Defined (step c))) .new es s := by
  have hkeep : ∀ s e t, InOrder c s → NoCallLeft s e → Defined (step c) s e t → InOrder c t :=
    fun _ _ _ h hguard hstep => step_inOrder h hguard hstep
  have hlose : ∀ s e t, InOrder c s → ¬ NoCallLeft s e → Defined (step c) s e t → ¬ Matched c t :=
    fun _ _ _ h hguard hstep => step_unmatched h hguard hstep
  exact (run_guarded_iff (fun _ h => h.matched) hkeep hlose new_inOrder).symm

/-- The only patient of a host dies and is removed, and then the one on another host dies, so
    that the clerk is isolated. The call of the first host fires and ends the isolation. -/
theorem forgotten_call :
    ∃ s t, Run (Defined (step localMonitor)) .new [.added "a" "host" 5, .added "b" "other" 5,
        .died "a", .removed "a", .died "b", .added "d" "third" 5] s ∧ ¬ Matched localMonitor s ∧
      step localMonitor s (.fired 0) = some t ∧ s.state = .isolated ∧ t.state = .normal := by
  obtain ⟨s, hs, hrun⟩ : ∃ s, ([.added "a" "host" 5, .added "b" "other" 5, .died "a",
        .removed "a", .died "b", .added "d" "third" 5] : List Event).foldlM (step localMonitor)
          .new = some s ∧
      decide (s.calls.lookup 0 = some (90, .liftLocation 0) ∧
        s.locations.lookup (s.heap 0).name = none ∧ s.state = .isolated ∧
        ∃ t ∈ step localMonitor s (.fired 0), t.state = .normal) = true := by
    apply Option.map_eq_some_iff.mp
    decide +kernel
  obtain ⟨hcall, hgone, hisolated, t, ht, hnormal⟩ := of_decide_eq_true hrun
  refine ⟨s, t, run_defined hs, fun h => ?_, ht, hisolated, hnormal⟩
  have hregistered := h.registered 0 ⟨0, 90, hcall⟩
  rw [hgone] at hregistered
  cases hregistered

end Feat.Agents.Monitor
