import Feat.Lib.Run
import Feat.Agents.ClerkHistory

/- Which deaths the coroner hears of. A clerk that is disconnected or isolated does not
   trust what it sees: it pauses every location it knows, and a paused location notifies
   nobody.

   Pausing is a flag of a location, set by a loop over the locations there are. Three
   things get past it: a location made while the clerk is disconnected or isolated is
   not paused; the loop that resumes the locations goes on after one of them has made
   the clerk isolated again; and pausing a recovering location counts as a way out of
   isolation and starts that loop. `Safe` excludes the three, and `coroner_trusted` is
   the result about runs of safe events. `new_location_unpaused` is a run that shows
   the first. -/
namespace Feat.Agents.Monitor
open Hash Transition

/-- The states in which the clerk does not trust what it sees. -/
def MonitorState.Blind (st : MonitorState) : Prop := st = .disconnected ∨ st = .isolated

instance (st : MonitorState) : Decidable st.Blind := inferInstanceAs (Decidable (_ ∨ _))

section Conditions
variable (c : Config)

/-- Resuming the locations does not isolate the clerk before the last one is resumed. -/
def Resumable (s : Clerk) : Prop :=
  c.enableQuarantine = false ∨ (∃ r ∈ iterLocations c s, Lively c (s.heap r)) ∨
    (∀ r ∈ iterLocations c s, (s.heap r).state ≠ .isolated) ∨ (iterLocations c s).length ≤ 1

instance (s : Clerk) : Decidable (Resumable c s) := inferInstanceAs (Decidable (_ ∨ _ ∨ _ ∨ _))

/-- `_check_quarantine` asks for quarantine. -/
def AsksQuarantine (loc : Location) : Prop :=
  loc.countPatients c.order .dying = 0 ∧ loc.countPatients c.order .dead > 0 ∧
    loc.state ≠ .isolated ∧ loc.paused = false

instance (loc : Location) : Decidable (AsksQuarantine c loc) :=
  inferInstanceAs (Decidable (_ ∧ _ ∧ _ ∧ _))

/-- When this location gets isolated, either the clerk does not, or no other location is
    recovering that pausing would bring back to normal. -/
def Pausable (s : Clerk) (r : Ref) : Prop :=
  s.state = .normal →
    (∃ r' ∈ iterLocations c s, r' ≠ r ∧ Lively c (s.heap r')) ∨
      ∀ r' ∈ iterLocations c s, r' ≠ r → (s.heap r').name = c.location ∨
        (s.heap r').state ≠ .recovering

instance (s : Clerk) (r : Ref) : Decidable (Pausable c s r) := inferInstanceAs (Decidable (_ → _))

/-- The condition on the death of a patient. -/
def SafeDeath (s : Clerk) (key : String) (r : Ref) (p : Patient) : Prop :=
  c.enableQuarantine = true →
    ¬ ((s.heap r).state = .normal ∧
      ((s.heap r).mark key p .dead).countPatients c.order .alive > 0) →
    AsksQuarantine c ((s.heap r).mark key p .dead) → Pausable c s r

instance (s : Clerk) (key : String) (r : Ref) (p : Patient) : Decidable (SafeDeath c s key r p) :=
  inferInstanceAs (Decidable (_ → _ → _ → _))

/-- The location after a patient was removed. -/
def Location.without (key : String) (loc : Location) : Location :=
  { loc with patients := loc.patients.erase key, dead := loc.dead.erase key }

/-- The condition on the removal of a patient. -/
def SafeRemoval (s : Clerk) (key : String) (r : Ref) (p : Patient) : Prop :=
  c.enableQuarantine = true → (s.heap r).state = .normal ∧ p.state ≠ .dead →
    AsksQuarantine c ((s.heap r).without key) → Pausable c s r

instance (s : Clerk) (key : String) (r : Ref) (p : Patient) :
    Decidable (SafeRemoval c s key r p) := inferInstanceAs (Decidable (_ → _ → _ → _))

/-- The condition on a delayed call. -/
def SafeCall (s : Clerk) : Call → Prop
  | .liftLocation r => s.state = .isolated → (s.heap r).name ≠ c.location → Resumable c s
  | .liftIsolation => True

instance (s : Clerk) : ∀ call, Decidable (SafeCall c s call)
  | .liftLocation _ => inferInstanceAs (Decidable (_ → _ → _))
  | .liftIsolation => inferInstanceAs (Decidable True)

/-- The condition on one event. -/
def Safe (s : Clerk) : Event → Prop
  | .added _ location _ => s.state.Blind → location ∈ s.locations
  | .died key => ∀ q ∈ s.patient key, SafeDeath c s key q.1 q.2
  | .removed key => ∀ q ∈ s.patient key, SafeRemoval c s key q.1 q.2
  | .reconnected => s.state = .disconnected → Resumable c s
  | .fired id => ∀ q ∈ s.calls.lookup id, SafeCall c s q.2
  | _ => True

instance (s : Clerk) : ∀ e, Decidable (Safe c s e)
  | .added _ _ _ => inferInstanceAs (Decidable (_ → _))
  | .died key => inferInstanceAs (Decidable (∀ q ∈ s.patient key, SafeDeath c s key q.1 q.2))
  | .removed key => inferInstanceAs (Decidable (∀ q ∈ s.patient key, SafeRemoval c s key q.1 q.2))
  | .reconnected => inferInstanceAs (Decidable (_ → _))
  | .fired id => inferInstanceAs (Decidable (∀ q ∈ s.calls.lookup id, SafeCall c s q.2))
  | .dying _ | .resurrected _ | .relapsed _ | .disconnected => inferInstanceAs (Decidable True)

end Conditions

variable {c : Config}

theorem mem_iterLocations {s : Clerk} {r : Ref} :
    r ∈ iterLocations c s ↔ ∃ n, s.locations.lookup n = some r := Dict.mem_values

/-! ## What does not change who is isolated -/

/-- The coroner was called by a clerk that sees, and no callback went too deep. -/
structure Clean (s : Clerk) : Prop where
  trusted : ∀ key p st, .dead key p st ∈ s.history → ¬ st.Blind
  running : s.exhausted = false

/-- Locations may be paused or resumed, calls scheduled and deaths notified; no location
    and no clerk changes its state. -/
structure Steady (s t : Clerk) : Prop where
  frame : Frame s t
  located : ∀ r, (t.heap r).state = (s.heap r).state
  monitored : t.state = s.state
  clean : ¬ s.state.Blind → Clean s → Clean t

theorem Frame.trans {s t u : Clerk} (h : Frame s t) (h' : Frame t u) : Frame s u :=
  ⟨h'.locations.trans h.locations, h'.patients.trans h.patients, h'.created.trans h.created,
    fun r => (h'.name r).trans (h.name r), fun r => (h'.residents r).trans (h.residents r)⟩

theorem Frame.iterLocations {s t : Clerk} (h : Frame s t) : iterLocations c t = iterLocations c s := by
  unfold Monitor.iterLocations
  rw [h.locations]

theorem Steady.refl (s : Clerk) : Steady s s := ⟨.refl s, fun _ => rfl, rfl, fun _ h => h⟩

theorem Steady.trans {s t u : Clerk} (h : Steady s t) (h' : Steady t u) : Steady s u where
  frame := h.frame.trans h'.frame
  located r := (h'.located r).trans (h.located r)
  monitored := h'.monitored.trans h.monitored
  clean hs hc := h'.clean (by rwa [h.monitored]) (h.clean hs hc)

theorem Steady.lively {s t : Clerk} (h : Steady s t) (r : Ref) :
    Lively c (t.heap r) ↔ Lively c (s.heap r) := by
  unfold Lively Location.countPatients Location.iterPatients
  rw [h.located, h.frame.name, h.frame.residents]

theorem Rescheduled.steady {s t : Clerk} (h : Rescheduled s t) : Steady s t := by
  obtain ⟨calls, lc, ic, n, rfl⟩ := h
  exact ⟨⟨rfl, rfl, rfl, fun _ => rfl, fun _ => rfl⟩, fun _ => rfl, rfl,
    fun _ hc => ⟨hc.trusted, hc.running⟩⟩

theorem Rescheduled.refl (s : Clerk) : Rescheduled s s := ⟨_, _, _, _, rfl⟩

theorem Rescheduled.trans {s t u : Clerk} (h : Rescheduled s t) (h' : Rescheduled t u) :
    Rescheduled s u := by
  obtain ⟨_, _, _, _, rfl⟩ := h
  obtain ⟨_, _, _, _, rfl⟩ := h'
  exact ⟨_, _, _, _, rfl⟩

theorem Rescheduled.monitored {s t : Clerk} (h : Rescheduled s t) (st : MonitorState) :
    Rescheduled { s with state := st } { t with state := st } := by
  obtain ⟨_, _, _, _, rfl⟩ := h
  exact ⟨_, _, _, _, rfl⟩

theorem Rescheduled.heap {s t : Clerk} (h : Rescheduled s t) : t.heap = s.heap := by
  obtain ⟨calls, lc, ic, n, rfl⟩ := h
  rfl

theorem Rescheduled.clean {s t : Clerk} (h : Rescheduled s t) (hc : Clean s) : Clean t := by
  obtain ⟨calls, lc, ic, n, rfl⟩ := h
  exact ⟨hc.trusted, hc.running⟩

theorem steady_paused (s : Clerk) (r : Ref) (b : Bool) :
    Steady s (s.update r (fun l => { l with paused := b })) := by
  refine ⟨(Frame.refl s).update rfl rfl, fun r' => ?_, rfl, fun _ hc => ⟨hc.trusted, hc.running⟩⟩
  by_cases hr : r' = r
  · subst hr
    rw [update_heap_self]
  · rw [update_heap_ne _ _ hr]

theorem steady_notifyDeath (s : Clerk) (r : Ref) (key : String) (p : Patient) :
    Steady s (notifyDeath r key p s) := by
  unfold notifyDeath
  split
  · exact .refl s
  · split
    · exact .refl s
    · have hframe := (Frame.refl s).update (r := r)
        (f := fun l => { l with dead := insert key l.dead }) rfl rfl
      refine ⟨⟨hframe.locations, hframe.patients, hframe.created, hframe.name, hframe.residents⟩,
        fun r' => ?_, rfl, fun hs hc => ⟨fun key' p' st' hm => ?_, hc.running⟩⟩
      · by_cases hr : r' = r
        · subst hr
          simp [patientDead]
        · simp [patientDead, update_heap_ne _ _ hr]
      · obtain hm | hm := List.mem_append.mp hm
        · exact hc.trusted key' p' st' hm
        · cases List.mem_singleton.mp hm
          exact hs

theorem steady_bringOutYourDead (s : Clerk) (r : Ref) : Steady s (bringOutYourDead c r s) := by
  unfold bringOutYourDead
  generalize (s.heap r).iterPatients c.order .dead = l
  induction l generalizing s with
  | nil => exact .refl s
  | cons q l ih => exact (steady_notifyDeath s r q.1 q.2).trans (ih _)

/-- A paused location brings nobody out. -/
theorem bringOutYourDead_paused {s : Clerk} {r : Ref} (h : (s.heap r).paused = true) :
    bringOutYourDead c r s = s := by
  unfold bringOutYourDead
  generalize (s.heap r).iterPatients c.order .dead = l
  induction l with
  | nil => rfl
  | cons q l ih =>
    rw [List.foldl_cons, notifyDeath, if_pos h]
    exact ih

theorem bringOutYourDead_empty {s : Clerk} {r : Ref}
    (h : ∀ key, (s.heap r).patients.lookup key = none) : bringOutYourDead c r s = s := by
  have hnone : (s.heap r).iterPatients c.order .dead = [] := by
    apply List.eq_nil_iff_forall_not_mem.mpr
    intro ⟨key, p⟩ hq
    have hp := (mem_iterPatients.mp hq).1
    rw [h key] at hp
    cases hp
  unfold bringOutYourDead
  rw [hnone]
  rfl

/-! ## Resuming -/

section Resuming
variable {k : Ref → Clerk → Clerk}

theorem checkIsolated_lively {s : Clerk} (hs : s.state = .normal)
    (hl : ∃ r ∈ iterLocations c s, Lively c (s.heap r)) : checkIsolated c k s = (false, s) := by
  unfold checkIsolated
  rw [if_neg (by rw [hs]; simp), if_pos hl]

theorem checkIsolated_held {s : Clerk} (hs : s.state = .isolated ∨ s.state = .recovering) :
    checkIsolated c k s = (true, s) := if_pos hs

theorem rescheduled_locationRecovering {s : Clerk} {r : Ref}
    (h : (s.heap r).state = .recovering) : Rescheduled s (locationRecovering c k r s) := by
  have hstart : (startRecovery c k r s).2 = s := by
    unfold startRecovery
    split
    · simp [h]
    · rfl
  have hcall := rescheduled_locScheduleCall (startRecovery c k r s).1 r
    (startRecovery c k r s).2
  rw [hstart] at hcall
  unfold locationRecovering
  dsimp only
  rw [hstart]
  exact hcall

/-- A location that is isolated asks for quarantine and the clerk is not isolated by it. -/
theorem rescheduled_needQuarantine {s : Clerk} {r : Ref} (hr : (s.heap r).state = .isolated)
    (hs : s.state = .recovering ∨
      (s.state = .normal ∧ ∃ r ∈ iterLocations c s, Lively c (s.heap r))) :
    Rescheduled s (needQuarantine c k r s) := by
  have hstart : Rescheduled s (locStartQuarantine c k r s) := by
    unfold locStartQuarantine
    obtain hs | ⟨hs, hl⟩ := hs
    · rw [checkIsolated_held (.inr hs)]
      exact .refl s
    · rw [checkIsolated_lively hs hl]
      have hcancel := rescheduled_locCancelCall r s
      have hstill : ((locCancelCall r s).heap r).state = .isolated := by rw [hcancel.heap, hr]
      unfold startQuarantine
      simpa [hstill] using hcancel
  unfold needQuarantine
  dsimp only
  split
  · exact hstart.trans (rescheduled_locScheduleCall _ _ _)
  · exact hstart

/-- Resuming cannot isolate the clerk. -/
def Secure (c : Config) (s : Clerk) : Prop :=
  s.state = .recovering ∨ (s.state = .normal ∧ (c.enableQuarantine = false ∨
    (∃ r ∈ iterLocations c s, Lively c (s.heap r)) ∨
      ∀ r ∈ iterLocations c s, (s.heap r).state ≠ .isolated))

theorem Secure.not_blind {s : Clerk} (h : Secure c s) : ¬ s.state.Blind := by
  intro hb
  obtain hs | ⟨hs, -⟩ := h <;> rw [hs] at hb <;> obtain hb | hb := hb <;> cases hb

theorem Steady.secure {s t : Clerk} (hst : Steady s t) (h : Secure c s) : Secure c t := by
  unfold Secure
  rw [hst.monitored, hst.frame.iterLocations]
  simp only [hst.lively, hst.located]
  exact h

theorem steady_resume {s : Clerk} {r : Ref} (h : Secure c s) (hr : r ∈ iterLocations c s) :
    Steady s (resume c k r s) := by
  have hpaused := steady_paused s r false
  have hnow := hpaused.secure h
  have hmem : r ∈ iterLocations c (s.update r (fun l => { l with paused := false })) := hr
  unfold resume
  dsimp only
  generalize s.update r (fun l => { l with paused := false }) = u at hpaused hnow hmem
  apply hpaused.trans
  split
  · exact steady_bringOutYourDead u r
  · rename_i hon
    split
    · rename_i hiso
      have hs : u.state = .recovering ∨
          (u.state = .normal ∧ ∃ r ∈ iterLocations c u, Lively c (u.heap r)) := by
        obtain hs | ⟨hs, hoff | hl | hnone⟩ := hnow
        · exact .inl hs
        · exact absurd (by simp [hoff]) hon
        · exact .inr ⟨hs, hl⟩
        · exact absurd hiso (hnone r hmem)
      exact (rescheduled_needQuarantine hiso hs).steady
    · rename_i hrec
      exact (rescheduled_locationRecovering hrec).steady
    · exact .refl u

theorem steady_locResumeAll {s : Clerk} (h : Secure c s) : Steady s (locResumeAll c k s) := by
  have hfold : ∀ (l : List Ref) (t : Clerk), Secure c t → (∀ r ∈ l, r ∈ iterLocations c t) →
      Steady t (l.foldl (fun s r => resume c k r s) t) := by
    intro l
    induction l with
    | nil => exact fun t _ _ => .refl t
    | cons r l ih =>
      intro t ht hl
      have hstep := steady_resume (k := k) ht (hl r (by simp))
      apply hstep.trans
      apply ih _ (hstep.secure ht)
      intro r' hr'
      rw [hstep.frame.iterLocations]
      exact hl r' (by simp [hr'])
  exact hfold _ s h (fun _ hr => hr)

end Resuming

/-! ## Pausing -/

/-- What `_location_state_changed` can do: leave isolation and resume all, end recovery,
    or neither. -/
theorem stateChanged_cases (k : Ref → Clerk → Clerk) (r : Ref) (s : Clerk) :
    (∃ v, Rescheduled { s with state := .normal } v ∧ s.state = .isolated ∧
      (s.heap r).state ≠ .isolated ∧ (s.heap r).name ≠ c.location ∧
      stateChanged c k r s = locResumeAll c k v) ∨
    (∃ u, Rescheduled s u ∧ s.state = .recovering ∧
      (∀ l ∈ iterLocations c s, (s.heap l).state = .normal) ∧
      stateChanged c k r s = { u with state := .normal }) ∨
    (Rescheduled s (stateChanged c k r s) ∧
      (s.state = .isolated → (s.heap r).state = .isolated ∨ (s.heap r).name = c.location)) := by
  have hcancelled : Rescheduled s (if (s.heap r).state = .normal then locCancelCall r s else s) := by
    split
    · exact rescheduled_locCancelCall r s
    · exact .refl s
  unfold stateChanged
  dsimp only
  generalize (if (s.heap r).state = .normal then locCancelCall r s else s) = u at hcancelled ⊢
  have hiter := hcancelled.steady.frame.iterLocations (c := c)
  have hstate := hcancelled.steady.monitored
  split
  · rename_i hs
    split
    · rename_i hout
      rw [hcancelled.heap] at hout
      refine .inl ⟨_, ?_, hstate ▸ hs, hout.1, hout.2, rfl⟩
      exact (hcancelled.monitored .normal).trans (rescheduled_isoCancelCall _)
    · rename_i hin
      rw [hcancelled.heap] at hin
      refine .inr (.inr ⟨hcancelled, fun _ => ?_⟩)
      by_cases hiso : (s.heap r).state = .isolated
      · exact .inl hiso
      · exact .inr (by simpa [hiso] using hin)
  · rename_i hs
    split
    · rename_i hall
      rw [hiter, hcancelled.heap] at hall
      exact .inr (.inl ⟨u, hcancelled, hstate ▸ hs, hall, rfl⟩)
    · refine .inr (.inr ⟨hcancelled, fun hiso => ?_⟩)
      rw [← hstate, hs] at hiso
      cases hiso
  · rename_i hs _
    exact .inr (.inr ⟨hcancelled, fun hiso => absurd (hstate.trans hiso) hs⟩)

/-- Nothing is isolated that resuming would isolate the clerk by. -/
def Loose (c : Config) (s : Clerk) : Prop :=
  c.enableQuarantine = false ∨ ∀ r ∈ iterLocations c s, (s.heap r).state ≠ .isolated

/-- No other location is recovering. -/
def NoneRecovering (c : Config) (s : Clerk) : Prop :=
  ∀ r ∈ iterLocations c s, (s.heap r).name = c.location ∨ (s.heap r).state ≠ .recovering

/-- The states from which the loop that pauses the locations ends with all of them paused,
    or with a clerk that sees. -/
def Pausing (c : Config) (s : Clerk) : Prop :=
  s.state = .disconnected ∨ (s.state = .normal ∧ Loose c s) ∨
    (s.state = .isolated ∧ (Loose c s ∨ NoneRecovering c s))

theorem Loose.secure {s : Clerk} (h : Loose c s) (hs : s.state = .normal) : Secure c s := by
  obtain hoff | hnone := h
  · exact .inr ⟨hs, .inl hoff⟩
  · exact .inr ⟨hs, .inr (.inr hnone)⟩

theorem Steady.loose {s t : Clerk} (hst : Steady s t) (h : Loose c s) : Loose c t := by
  unfold Loose
  rw [hst.frame.iterLocations]
  simp only [hst.located]
  exact h

theorem Steady.noneRecovering {s t : Clerk} (hst : Steady s t) (h : NoneRecovering c s) :
    NoneRecovering c t := by
  unfold NoneRecovering
  rw [hst.frame.iterLocations]
  simp only [hst.located, hst.frame.name]
  exact h

theorem Steady.pausing {s t : Clerk} (hst : Steady s t) (h : Pausing c s) : Pausing c t := by
  unfold Pausing
  rw [hst.monitored]
  obtain hs | ⟨hs, hl⟩ | ⟨hs, hl | hn⟩ := h
  · exact .inl hs
  · exact .inr (.inl ⟨hs, hst.loose hl⟩)
  · exact .inr (.inr ⟨hs, .inl (hst.loose hl)⟩)
  · exact .inr (.inr ⟨hs, .inr (hst.noneRecovering hn)⟩)

theorem update_state (s : Clerk) (r r' : Ref) (st : LocationState) :
    ((s.update r (fun l => { l with state := st })).heap r').state =
      if r' = r then st else (s.heap r').state := by
  by_cases hr : r' = r
  · subst hr
    simp
  · rw [update_heap_ne _ _ hr, if_neg hr]

theorem update_state_paused (s : Clerk) (r r' : Ref) (st : LocationState) :
    ((s.update r (fun l => { l with state := st })).heap r').paused = (s.heap r').paused := by
  by_cases hr : r' = r
  · subst hr
    simp
  · rw [update_heap_ne _ _ hr]

theorem Loose.normal {s : Clerk} (h : Loose c s) (r : Ref) :
    Loose c (s.update r (fun l => { l with state := .normal })) := by
  obtain hoff | hnone := h
  · exact .inl hoff
  · refine .inr fun r' hr' => ?_
    rw [update_state]
    split
    · decide
    · exact hnone r' hr'

theorem NoneRecovering.normal {s : Clerk} (h : NoneRecovering c s) (r : Ref) :
    NoneRecovering c (s.update r (fun l => { l with state := .normal })) := by
  intro r' hr'
  have hframe : Frame s (s.update r (fun l => { l with state := .normal })) :=
    (Frame.refl s).update rfl rfl
  rw [update_state, hframe.name]
  obtain hown | hrec := h r' hr'
  · exact .inl hown
  · refine .inr ?_
    split
    · decide
    · exact hrec

theorem Pausing.normal {s : Clerk} (h : Pausing c s) (r : Ref) :
    Pausing c (s.update r (fun l => { l with state := .normal })) := by
  obtain hs | ⟨hs, hl⟩ | ⟨hs, hl | hn⟩ := h
  · exact .inl hs
  · exact .inr (.inl ⟨hs, hl.normal r⟩)
  · exact .inr (.inr ⟨hs, .inl (hl.normal r)⟩)
  · exact .inr (.inr ⟨hs, .inr (hn.normal r)⟩)

/-- A recovering location that is paused leads the clerk out of isolation only where
    resuming cannot isolate it again. -/
theorem Pausing.loose {s : Clerk} (h : Pausing c s) (hs : s.state = .isolated) {r : Ref}
    (hr : r ∈ iterLocations c s) (hrec : (s.heap r).state = .recovering)
    (hforeign : (s.heap r).name ≠ c.location) : Loose c s := by
  obtain hs' | ⟨hs', -⟩ | ⟨-, hl | hn⟩ := h
  · exact absurd (hs'.symm.trans hs) (by decide)
  · exact absurd (hs'.symm.trans hs) (by decide)
  · exact hl
  · obtain hown | hnot := hn r hr
    · exact absurd hown hforeign
    · exact absurd hrec hnot

section Pausing
variable {k : Ref → Clerk → Clerk}

/-- What pausing some locations leads to, one or all of `rs`. -/
structure Pauses (c : Config) (rs : List Ref) (s t : Clerk) : Prop where
  pausing : Pausing c t
  frame : Frame s t
  clean : Clean s → Clean t
  blind : t.state.Blind → s.state.Blind
  paused : t.state.Blind → ∀ r ∈ rs, (t.heap r).paused = true
  kept : t.state.Blind → ∀ r, (s.heap r).paused = true → (t.heap r).paused = true

theorem pauses_pause {s : Clerk} (h : Pausing c s) {r : Ref} (hr : r ∈ iterLocations c s) :
    Pauses c [r] s (pause (stateChanged c k) r s) := by
  have hsteady := steady_paused s r true
  have hpausing := hsteady.pausing h
  have hself : ((s.update r (fun l => { l with paused := true })).heap r).paused = true := by simp
  have hkept : ∀ r', (s.heap r').paused = true →
      ((s.update r (fun l => { l with paused := true })).heap r').paused = true := by
    intro r' hp
    by_cases hr' : r' = r
    · rw [hr']
      exact hself
    · rwa [update_heap_ne _ _ hr']
  have hclean : Clean s → Clean (s.update r (fun l => { l with paused := true })) :=
    fun hc => ⟨hc.trusted, hc.running⟩
  have hmem : r ∈ iterLocations c (s.update r (fun l => { l with paused := true })) := hr
  have hblind : (s.update r (fun l => { l with paused := true })).state = s.state := rfl
  unfold pause
  dsimp only
  generalize s.update r (fun l => { l with paused := true }) = u at *
  split
  · rename_i hrec
    -- a recovering location goes back to normal, and the clerk hears of it
    have hnormal := hpausing.normal r
    have hframe : Frame u (u.update r (fun l => { l with state := .normal })) :=
      (Frame.refl u).update rfl rfl
    have hpaused := fun r' => update_state_paused u r r' .normal
    have hcleaned : Clean u → Clean (u.update r (fun l => { l with state := .normal })) :=
      fun hc => ⟨hc.trusted, hc.running⟩
    have hstate : (u.update r (fun l => { l with state := .normal })).state = u.state := rfl
    have hforeign : ((u.update r (fun l => { l with state := .normal })).heap r).name =
      (u.heap r).name := hframe.name r
    unfold setState
    have hcases := stateChanged_cases (c := c) k r
      (u.update r (fun l => { l with state := .normal }))
    have hloose := fun hiso hname => (hpausing.loose (c := c) hiso hmem hrec hname).normal r
    generalize u.update r (fun l => { l with state := .normal }) = w at *
    obtain ⟨v, hv, hiso, -, hname, he⟩ | ⟨v, hv, hs, -, -⟩ | ⟨hv, -⟩ := hcases
    · have hout := hloose (hstate ▸ hiso) (hforeign ▸ hname)
      have hvstate : v.state = .normal := hv.steady.monitored
      have hvloose : Loose c v := hv.steady.loose hout
      have hresumed := steady_locResumeAll (k := k) (hvloose.secure hvstate)
      have hsees : ¬ v.state.Blind := (hvloose.secure hvstate).not_blind
      have hend : (locResumeAll c k v).state = .normal := hresumed.monitored.trans hvstate
      have hblind' : ¬ (stateChanged c k r w).state.Blind := by
        rw [he, hresumed.monitored]
        exact hsees
      refine ⟨?_, ?_, ?_, fun hb => absurd hb hblind', fun hb => absurd hb hblind',
        fun hb => absurd hb hblind'⟩
      · rw [he]
        exact .inr (.inl ⟨hend, hresumed.loose hvloose⟩)
      · rw [he]
        have hseen := (Frame.closed w).monitored w .normal (.refl w)
        exact hsteady.frame.trans
          (hframe.trans (hseen.trans (hv.steady.frame.trans hresumed.frame)))
      · rw [he]
        intro hc
        have hcw := hcleaned (hclean hc)
        exact hresumed.clean hsees (hv.clean ⟨hcw.trusted, hcw.running⟩)
    · obtain hs' | ⟨hs', -⟩ | ⟨hs', -⟩ := hnormal
      · exact absurd (hs'.symm.trans hs) (by decide)
      · exact absurd (hs'.symm.trans hs) (by decide)
      · exact absurd (hs'.symm.trans hs) (by decide)
    · refine ⟨hv.steady.pausing hnormal, hsteady.frame.trans (hframe.trans hv.steady.frame),
        fun hc => hv.clean (hcleaned (hclean hc)), fun hb => ?_, fun _ r' hr' => ?_,
        fun _ r' hp => ?_⟩
      · rwa [hv.steady.monitored, hstate, hblind] at hb
      · rw [List.mem_singleton.mp hr', hv.heap, hpaused]
        exact hself
      · rw [hv.heap, hpaused]
        exact hkept r' hp
  · exact ⟨hpausing, hsteady.frame, hclean, fun hb => hblind ▸ hb,
      fun _ r' hr' => by rw [List.mem_singleton.mp hr']; exact hself, fun _ => hkept⟩

theorem pauses_loop {l : List Ref} {s : Clerk} (h : Pausing c s)
    (hl : ∀ r ∈ l, r ∈ iterLocations c s) :
    Pauses c l s (l.foldl (fun s r => pause (stateChanged c k) r (locCancelCall r s)) s) := by
  induction l generalizing s with
  | nil => exact ⟨h, .refl s, id, id, fun _ _ hr => absurd hr (by simp), fun _ _ hp => hp⟩
  | cons r l ih =>
    have hcancel := rescheduled_locCancelCall r s
    have hmem : r ∈ iterLocations c (locCancelCall r s) := by
      rw [hcancel.steady.frame.iterLocations]
      exact hl r (by simp)
    have hone := pauses_pause (k := k) (hcancel.steady.pausing h) hmem
    have hrest := ih hone.pausing fun r' hr' => by
      rw [hone.frame.iterLocations, hcancel.steady.frame.iterLocations]
      exact hl r' (by simp [hr'])
    refine ⟨hrest.pausing, hcancel.steady.frame.trans (hone.frame.trans hrest.frame),
      fun hc => hrest.clean (hone.clean (hcancel.clean hc)), fun hb => ?_, fun hb r' hr' => ?_,
      fun hb r' hp => ?_⟩
    · rw [← hcancel.steady.monitored]
      exact hone.blind (hrest.blind hb)
    · obtain rfl | hr' := List.mem_cons.mp hr'
      · exact hrest.kept hb r' (hone.paused (hrest.blind hb) r' (by simp))
      · exact hrest.paused hb r' hr'
    · apply hrest.kept hb r'
      apply hone.kept (hrest.blind hb) r'
      rw [hcancel.heap, hp]

/-- A clerk that does not trust what it sees has every location paused. -/
structure Calm (c : Config) (s t : Clerk) : Prop where
  frame : Frame s t
  clean : Clean s → Clean t
  held : t.state.Blind → ∀ r ∈ iterLocations c t, (t.heap r).paused = true

theorem Steady.calm {s t : Clerk} (h : Steady s t) (hs : ¬ s.state.Blind) : Calm c s t :=
  ⟨h.frame, h.clean hs, fun hb => absurd (h.monitored ▸ hb) hs⟩

theorem Calm.rescheduled {s t u : Clerk} (h : Calm c s t) (hu : Rescheduled t u) : Calm c s u := by
  refine ⟨h.frame.trans hu.steady.frame, fun hc => hu.clean (h.clean hc), fun hb r hr => ?_⟩
  rw [hu.steady.monitored] at hb
  rw [hu.steady.frame.iterLocations] at hr
  rw [hu.heap]
  exact h.held hb r hr

theorem Calm.after {s t u : Clerk} (hframe : Frame s t) (hclean : Clean s → Clean t)
    (h : Calm c t u) : Calm c s u :=
  ⟨hframe.trans h.frame, fun hc => h.clean (hclean hc), h.held⟩

theorem calm_locPauseAll {s : Clerk} (h : Pausing c s) :
    Calm c s (locPauseAll c (stateChanged c k) s) := by
  have hall := pauses_loop (k := k) h (fun r (hr : r ∈ iterLocations c s) => hr)
  refine ⟨hall.frame, hall.clean, fun hb r hr => hall.paused hb r ?_⟩
  rw [← hall.frame.iterLocations]
  exact hr

theorem calm_checkIsolated {s : Clerk} (hs : s.state = .normal)
    (h : (∃ r ∈ iterLocations c s, Lively c (s.heap r)) ∨ Loose c s ∨ NoneRecovering c s) :
    Calm c s (checkIsolated c (stateChanged c k) s).2 := by
  by_cases hl : ∃ r ∈ iterLocations c s, Lively c (s.heap r)
  · rw [checkIsolated_lively hs hl]
    refine (Steady.refl s).calm ?_
    rw [hs]
    decide
  · unfold checkIsolated
    rw [if_neg (by rw [hs]; simp), if_neg hl]
    dsimp only
    have hsched := rescheduled_isoScheduleCall c.selfQuarantineLength { s with state := .isolated }
    refine Calm.after ((Frame.closed s).monitored s .isolated (.refl s))
      (fun hc => ⟨hc.trusted, hc.running⟩) ?_
    refine Calm.after hsched.steady.frame hsched.clean (calm_locPauseAll ?_)
    apply hsched.steady.pausing
    exact .inr (.inr ⟨rfl, h.resolve_left hl⟩)

/-- Asking for quarantine isolates the clerk, or leaves it seeing. -/
theorem calm_needQuarantine {s : Clerk} {r : Ref} (hr : (s.heap r).state = .isolated)
    (hs : s.state = .recovering ∨ (s.state = .normal ∧
      ((∃ r ∈ iterLocations c s, Lively c (s.heap r)) ∨ NoneRecovering c s))) :
    Calm c s (needQuarantine c (stateChanged c k) r s) := by
  have hsees : ¬ s.state.Blind := by
    obtain hs | ⟨hs, -⟩ := hs <;> rw [hs] <;> decide
  by_cases hl : s.state = .recovering ∨
      (s.state = .normal ∧ ∃ r ∈ iterLocations c s, Lively c (s.heap r))
  · exact (rescheduled_needQuarantine hr hl).steady.calm hsees
  · obtain hs | ⟨hs, h⟩ := hs
    · exact absurd (.inl hs) hl
    · have hdead : ¬ ∃ r ∈ iterLocations c s, Lively c (s.heap r) := fun h => hl (.inr ⟨hs, h⟩)
      have hcalm := calm_checkIsolated (k := k) hs (h.imp id .inr)
      have hiso : (checkIsolated c (stateChanged c k) s).1 = true := by
        unfold checkIsolated
        rw [if_neg (by rw [hs]; simp), if_neg hdead]
      unfold needQuarantine locStartQuarantine
      dsimp only
      rw [if_pos hiso]
      split
      · exact hcalm.rescheduled (rescheduled_locScheduleCall _ _ _)
      · exact hcalm

end Pausing

/-- The only location there is isolates the clerk and is paused. -/
theorem needQuarantine_only {k : Ref → Clerk → Clerk} {s : Clerk} {r : Ref}
    (hs : s.state = .normal) (hdead : ¬ ∃ r ∈ iterLocations c s, Lively c (s.heap r))
    (honly : iterLocations c s = [r]) (hr : (s.heap r).state = .isolated) :
    ∃ w, Rescheduled { s with state := .isolated } w ∧
      needQuarantine c k r s = w.update r (fun l => { l with paused := true }) := by
  have hsched := rescheduled_isoScheduleCall c.selfQuarantineLength { s with state := .isolated }
  have hcancel := hsched.trans (rescheduled_locCancelCall r _)
  have hiter := hsched.steady.frame.iterLocations (c := c)
  have hcheck : checkIsolated c k s =
      (true, locPauseAll c k
        (isoScheduleCall c.selfQuarantineLength { s with state := .isolated })) := by
    unfold checkIsolated
    rw [if_neg (by rw [hs]; simp), if_neg hdead]
  refine ⟨_, hcancel, ?_⟩
  generalize isoScheduleCall c.selfQuarantineLength { s with state := .isolated } = v at *
  have hloop : locPauseAll c k v =
      (locCancelCall r v).update r (fun l => { l with paused := true }) := by
    unfold locPauseAll
    have hv : iterLocations c v = [r] := hiter.trans honly
    rw [hv, List.foldl_cons, List.foldl_nil]
    unfold pause
    dsimp only
    rw [if_neg]
    rw [update_heap_self, hcancel.heap]
    show (s.heap r).state ≠ .recovering
    rw [hr]
    decide
  have hstill : ((locCancelCall r v).update r (fun l => { l with paused := true })).state =
      .isolated := hcancel.steady.monitored
  unfold needQuarantine locStartQuarantine
  rw [hcheck]
  dsimp only
  rw [if_pos rfl, hloop, if_neg (by simp [hstill])]

/-- Resuming all locations ends with a clerk that sees, or with the only location paused. -/
theorem calm_locResumeAll {k : Ref → Clerk → Clerk} {s : Clerk} (hs : s.state = .normal)
    (h : Resumable c s) : Calm c s (locResumeAll c k s) ∧
      (Steady s (locResumeAll c k s) ∧ Secure c s ∨
        (locResumeAll c k s).state = .isolated) := by
  have hsees : ¬ s.state.Blind := by
    rw [hs]
    decide
  by_cases hsec : Secure c s
  · have hst := steady_locResumeAll (k := k) hsec
    exact ⟨hst.calm hsees, .inl ⟨hst, hsec⟩⟩
  · -- one location, isolated, and nobody alive elsewhere
    have hon : c.enableQuarantine = true := by
      by_contra hoff
      exact hsec (.inr ⟨hs, .inl (by simpa using hoff)⟩)
    have hdead : ¬ ∃ r ∈ iterLocations c s, Lively c (s.heap r) :=
      fun hl => hsec (.inr ⟨hs, .inr (.inl hl)⟩)
    have hiso : ∃ r ∈ iterLocations c s, (s.heap r).state = .isolated := by
      by_contra hnone
      push Not at hnone
      exact hsec (.inr ⟨hs, .inr (.inr hnone)⟩)
    have hone : (iterLocations c s).length ≤ 1 := by
      obtain hoff | hl | hnone | hone := h
      · rw [hon] at hoff
        cases hoff
      · exact absurd hl hdead
      · obtain ⟨r, hr, hi⟩ := hiso
        exact absurd hi (hnone r hr)
      · exact hone
    obtain ⟨r, hr, hi⟩ := hiso
    have honly : iterLocations c s = [r] := by
      cases hl : iterLocations c s with
      | nil =>
        rw [hl] at hr
        cases hr
      | cons r' rest =>
        rw [hl] at hr hone
        have hrest : rest = [] := List.eq_nil_of_length_eq_zero (by simpa using hone)
        rw [hrest] at hr ⊢
        rw [List.mem_singleton.mp hr]
    have hpaused := steady_paused s r false
    have hlocated : ((s.update r (fun l => { l with paused := false })).heap r).state =
        .isolated := (hpaused.located r).trans hi
    have hall : locResumeAll c k s = needQuarantine c k r
        (s.update r (fun l => { l with paused := false })) := by
      unfold locResumeAll
      rw [honly, List.foldl_cons, List.foldl_nil]
      unfold resume
      simp [hon, hi]
    have hstill : ¬ ∃ r' ∈ iterLocations c (s.update r (fun l => { l with paused := false })),
        Lively c ((s.update r (fun l => { l with paused := false })).heap r') := by
      rw [hpaused.frame.iterLocations]
      simpa only [hpaused.lively] using hdead
    obtain ⟨w, hw, he⟩ := needQuarantine_only (k := k) (hpaused.monitored.trans hs)
      hstill (hpaused.frame.iterLocations.trans honly) hlocated
    generalize s.update r (fun l => { l with paused := false }) = u at *
    have hend := steady_paused w r true
    have hisolated := (Frame.closed u).monitored u .isolated (.refl u)
    have hframe := hpaused.frame.trans (hisolated.trans (hw.steady.frame.trans hend.frame))
    rw [hall, he]
    refine ⟨⟨hframe, fun hc => ?_, fun _ r' hr' => ?_⟩, .inr (hend.monitored.trans hw.steady.monitored)⟩
    · have hcu := hpaused.clean hsees hc
      have hcw := hw.clean (s := { u with state := .isolated }) ⟨hcu.trusted, hcu.running⟩
      exact ⟨hcw.trusted, hcw.running⟩
    · rw [hframe.iterLocations, honly] at hr'
      rw [List.mem_singleton.mp hr', update_heap_self]

/-! ## One event -/

/-- The invariant of runs of safe events. -/
structure Quiet (c : Config) (s : Clerk) : Prop where
  clean : Clean s
  held : s.state.Blind → ∀ r ∈ iterLocations c s, (s.heap r).paused = true

theorem Calm.quiet {s t : Clerk} (h : Calm c s t) (hs : Clean s) : Quiet c t :=
  ⟨h.clean hs, h.held⟩

theorem Quiet.rescheduled {s t : Clerk} (h : Quiet c s) (ht : Rescheduled s t) : Quiet c t :=
  (Calm.rescheduled ⟨.refl s, id, h.held⟩ ht).quiet h.clean

theorem Quiet.update {s : Clerk} (h : Quiet c s) {r : Ref} {f : Location → Location}
    (hf : (f (s.heap r)).paused = (s.heap r).paused) : Quiet c (s.update r f) := by
  refine ⟨⟨h.clean.trusted, h.clean.running⟩, fun hb r' hr' => ?_⟩
  have hp := h.held hb r' hr'
  by_cases hr : r' = r
  · subst hr
    rw [update_heap_self, hf, hp]
  · rw [update_heap_ne _ _ hr, hp]

theorem quiet_notifyDeath {s : Clerk} (h : Quiet c s) {r : Ref} (hr : r ∈ iterLocations c s)
    (key : String) (p : Patient) : Quiet c (notifyDeath r key p s) := by
  by_cases hb : s.state.Blind
  · unfold notifyDeath
    rw [if_pos (h.held hb r hr)]
    exact h
  · exact ((steady_notifyDeath s r key p).calm hb).quiet h.clean

section Events
variable {k : Ref → Clerk → Clerk}

theorem quiet_checkQuarantine {s : Clerk} (h : Quiet c s) {r : Ref} (hr : r ∈ iterLocations c s)
    (hsafe : AsksQuarantine c (s.heap r) → Pausable c s r) :
    Quiet c (checkQuarantine c (stateChanged c k) r s) := by
  unfold checkQuarantine
  split
  · exact h
  rename_i hdying
  split
  · exact h
  rename_i hdead
  split
  swap
  · exact h
  rename_i hnot
  have hw : Quiet c (s.update r (fun l => { l with state := .isolated })) := h.update rfl
  have hself : ((s.update r (fun l => { l with state := .isolated })).heap r).state = .isolated :=
    by simp
  have hcases := stateChanged_cases (c := c) k r
    (s.update r (fun l => { l with state := .isolated }))
  obtain ⟨v, -, -, hout, -, -⟩ | ⟨v, -, -, hall, -⟩ | ⟨hv, -⟩ := hcases
  · exact absurd hself hout
  · exact absurd ((hall r hr).symm.trans hself) (by decide)
  · unfold setState
    dsimp only
    have hquiet := hw.rescheduled hv
    have hpaused : ((stateChanged c k r
        (s.update r (fun l => { l with state := .isolated }))).heap r).paused =
        (s.heap r).paused := by rw [hv.heap, update_heap_self]
    split
    · exact hquiet
    · rename_i hresumed
      rw [hpaused, Bool.not_eq_true] at hresumed
      have hasks : AsksQuarantine c (s.heap r) :=
        ⟨by omega, by omega, hnot, hresumed⟩
      have hsees : ¬ s.state.Blind := fun hb => by
        have hp := h.held hb r hr
        rw [hresumed] at hp
        cases hp
      have hmonitored : (stateChanged c k r
          (s.update r (fun l => { l with state := .isolated }))).state = s.state :=
        hv.steady.monitored
      have hiter : iterLocations c (stateChanged c k r
          (s.update r (fun l => { l with state := .isolated }))) = iterLocations c s :=
        hv.steady.frame.iterLocations
      have hother : ∀ r', r' ≠ r → (stateChanged c k r
          (s.update r (fun l => { l with state := .isolated }))).heap r' = s.heap r' := by
        intro r' hr'
        rw [hv.heap, update_heap_ne _ _ hr']
      have hiso : ((stateChanged c k r
          (s.update r (fun l => { l with state := .isolated }))).heap r).state = .isolated := by
        rw [hv.heap, hself]
      refine (calm_needQuarantine hiso ?_).quiet hquiet.clean
      rw [hmonitored, hiter]
      cases hs : s.state with
      | isolated => exact absurd (.inr hs) hsees
      | disconnected => exact absurd (.inl hs) hsees
      | recovering => exact .inl rfl
      | normal =>
        refine .inr ⟨rfl, ?_⟩
        obtain ⟨r', hr', hne, hl⟩ | hnone := hsafe hasks hs
        · exact .inl ⟨r', hr', by rwa [hother r' hne]⟩
        · refine .inr fun r' hr' => ?_
          by_cases hne : r' = r
          · rw [hne, hiso]
            exact .inr (by decide)
          · rw [hiter] at hr'
            rw [hother r' hne]
            exact hnone r' hr' hne

/-- A location with a patient alive leaves quarantine, and the clerk isolation with it. -/
theorem quiet_setState {s : Clerk} (h : Quiet c s) {r : Ref} (hr : r ∈ iterLocations c s)
    {st : LocationState} (hst : st ≠ .isolated)
    (halive : (s.heap r).countPatients c.order .alive > 0) :
    Quiet c (setState (stateChanged c k) r st s) ∧
      ((setState (stateChanged c k) r st s).heap r).state = st := by
  have hw : Quiet c (s.update r (fun l => { l with state := st })) := h.update rfl
  have hself : ((s.update r (fun l => { l with state := st })).heap r).state = st := by simp
  have hcount : ((s.update r (fun l => { l with state := st })).heap r).countPatients c.order
      .alive > 0 := by
    rw [update_heap_self]
    exact halive
  have hmem : r ∈ iterLocations c (s.update r (fun l => { l with state := st })) := hr
  have hcases := stateChanged_cases (c := c) k r
    (s.update r (fun l => { l with state := st }))
  unfold setState
  generalize s.update r (fun l => { l with state := st }) = w at *
  obtain ⟨v, hv, -, -, hname, he⟩ | ⟨u, hu, -, -, he⟩ | ⟨hv, -⟩ := hcases
  · have hvstate : v.state = .normal := hv.steady.monitored
    have hsec : Secure c v := by
      refine .inr ⟨hvstate, .inr (.inl ⟨r, ?_, ?_⟩)⟩
      · rw [hv.steady.frame.iterLocations]
        exact hmem
      · rw [hv.heap]
        exact ⟨by rwa [hself], hname, hcount⟩
    have hresumed := steady_locResumeAll (k := k) hsec
    rw [he]
    refine ⟨(hresumed.calm hsec.not_blind).quiet ?_, ?_⟩
    · exact hv.clean ⟨hw.clean.trusted, hw.clean.running⟩
    · rw [hresumed.located, hv.heap]
      exact hself
  · rw [he]
    refine ⟨⟨⟨(hu.clean hw.clean).trusted, (hu.clean hw.clean).running⟩, fun hb => ?_⟩, ?_⟩
    · exact absurd hb (show ¬ MonitorState.Blind .normal by decide)
    · show (u.heap r).state = st
      rw [hu.heap, hself]
  · exact ⟨hw.rescheduled hv, by rw [hv.heap, hself]⟩

theorem quiet_patientDied {s : Clerk} (h : Quiet c s) {r : Ref} (hr : r ∈ iterLocations c s)
    {key : String} {p : Patient}
    (hsafe : c.enableQuarantine = true →
      ¬ ((s.heap r).state = .normal ∧ (s.heap r).countPatients c.order .alive > 0) →
        AsksQuarantine c (s.heap r) → Pausable c s r) :
    Quiet c (patientDied c (stateChanged c k) r key p s) := by
  unfold patientDied
  split
  · exact quiet_notifyDeath h hr key p
  · rename_i hon
    split
    · exact quiet_notifyDeath h hr key p
    · rename_i hlast
      exact quiet_checkQuarantine h hr (hsafe (by simpa using hon) hlast)

theorem quiet_patientResurrected {s : Clerk} (h : Quiet c s) {r : Ref}
    (hr : r ∈ iterLocations c s) {key : String}
    (halive : (s.heap r).countPatients c.order .alive > 0) :
    Quiet c (patientResurrected c (stateChanged c k) r key s) := by
  have hcleared : Quiet c (s.update r (fun l => { l with dead := l.dead.erase key })) :=
    h.update rfl
  have hcount : ((s.update r (fun l => { l with dead := l.dead.erase key })).heap r).countPatients
      c.order .alive > 0 := by
    rw [update_heap_self]
    exact halive
  have hset := fun st (hst : st ≠ LocationState.isolated) =>
    quiet_setState (k := k) hcleared hr hst hcount
  unfold patientResurrected
  dsimp only
  split
  · exact hcleared
  · split
    · split
      · exact (hset .normal (by decide)).1
      · exact hcleared
    · split
      · exact (hset .normal (by decide)).1
      · obtain ⟨hquiet, hrec⟩ := hset .recovering (by decide)
        split
        · exact hquiet
        · exact hquiet.rescheduled (rescheduled_locationRecovering hrec)

theorem quiet_bringOutYourDead {s : Clerk} (h : Quiet c s) (hplaced : Placed s) (r : Ref) :
    Quiet c (bringOutYourDead c r s) := by
  by_cases hb : s.state.Blind
  · by_cases hnone : ∀ key, (s.heap r).patients.lookup key = none
    · rw [bringOutYourDead_empty hnone]
      exact h
    · obtain ⟨key, hkey⟩ := not_forall.mp hnone
      obtain ⟨p, hp⟩ := Option.ne_none_iff_exists'.mp hkey
      have hr : r ∈ iterLocations c s := mem_iterLocations.mpr ⟨_, (hplaced.resident r key p hp).2.1⟩
      rw [bringOutYourDead_paused (h.held hb r hr)]
      exact h
  · exact ((steady_bringOutYourDead s r).calm hb).quiet h.clean

theorem Resumable.normal {s : Clerk} (h : Resumable c s) (r : Ref) :
    Resumable c (s.update r (fun l => { l with state := .normal })) := by
  obtain hoff | ⟨r', hr', hl⟩ | hnone | hone := h
  · exact .inl hoff
  · refine .inr (.inl ⟨r', hr', ?_⟩)
    obtain ⟨hl, hname, hcount⟩ := hl
    refine ⟨?_, ?_, ?_⟩
    · rw [update_state]
      split
      · decide
      · exact hl
    · by_cases hr : r' = r
      · subst hr
        rwa [update_heap_self]
      · rwa [update_heap_ne _ _ hr]
    · by_cases hr : r' = r
      · subst hr
        rw [update_heap_self]
        exact hcount
      · rwa [update_heap_ne _ _ hr]
  · obtain hoff | hnone := Loose.normal (c := c) (.inr hnone) r
    · exact .inl hoff
    · exact .inr (.inr (.inl hnone))
  · exact .inr (.inr (.inr hone))

theorem Steady.resumable {s t : Clerk} (hst : Steady s t) (h : Resumable c s) : Resumable c t := by
  unfold Resumable
  rw [hst.frame.iterLocations]
  simp only [hst.lively, hst.located]
  exact h

theorem quiet_quarantineLifted {s : Clerk} (h : Quiet c s) (hplaced : Placed s) (r : Ref)
    (hsafe : s.state = .isolated → (s.heap r).name ≠ c.location → Resumable c s) :
    Quiet c (quarantineLifted c (stateChanged c k) r s) := by
  have hw : Quiet c (s.update r (fun l => { l with state := .normal })) := h.update rfl
  have hframe : Frame s (s.update r (fun l => { l with state := .normal })) :=
    (Frame.refl s).update rfl rfl
  have hcases := stateChanged_cases (c := c) k r
    (s.update r (fun l => { l with state := .normal }))
  have hresumable := fun hs hname => (hsafe hs hname).normal r
  have hstate : (s.update r (fun l => { l with state := .normal })).state = s.state := rfl
  have hset : Quiet c (setState (stateChanged c k) r .normal s) ∧
      Placed (setState (stateChanged c k) r .normal s) := by
    unfold setState
    generalize s.update r (fun l => { l with state := .normal }) = w at *
    obtain ⟨v, hv, hiso, -, hname, he⟩ | ⟨u, hu, -, -, he⟩ | ⟨hv, -⟩ := hcases
    · rw [hframe.name] at hname
      have hres := hresumable (hstate ▸ hiso) hname
      have hvres : Resumable c v := hv.steady.resumable (s := { w with state := .normal }) hres
      obtain ⟨hcalm, -⟩ := calm_locResumeAll (k := k) hv.steady.monitored hvres
      have hseen := (Frame.closed w).monitored w .normal (.refl w)
      rw [he]
      refine ⟨hcalm.quiet (hv.clean ⟨hw.clean.trusted, hw.clean.running⟩), ?_⟩
      exact (hframe.trans (hseen.trans (hv.steady.frame.trans hcalm.frame))).placed hplaced
    · have hseen := (Frame.closed u).monitored u .normal (.refl u)
      rw [he]
      refine ⟨⟨⟨(hu.clean hw.clean).trusted, (hu.clean hw.clean).running⟩, fun hb => ?_⟩, ?_⟩
      · exact absurd hb (show ¬ MonitorState.Blind .normal by decide)
      · exact (hframe.trans (hu.steady.frame.trans hseen)).placed hplaced
    · exact ⟨hw.rescheduled hv, (hframe.trans hv.steady.frame).placed hplaced⟩
  exact quiet_bringOutYourDead hset.1 hset.2 r

theorem quiet_onDisconnected {s : Clerk} (h : Quiet c s) :
    Quiet c (onDisconnected c (stateChanged c k) s) := by
  unfold onDisconnected
  split
  · refine (calm_locPauseAll (.inl rfl)).quiet ?_
    have hcancelled := (rescheduled_isoCancelCall s).clean h.clean
    exact ⟨hcancelled.trusted, hcancelled.running⟩
  · exact h

theorem quiet_onReconnected {s : Clerk} (h : Quiet c s)
    (hsafe : s.state = .disconnected → Resumable c s) :
    Quiet c (onReconnected c (stateChanged c k) s) := by
  unfold onReconnected
  split
  · rename_i hs
    have hclean : Clean { s with state := .normal } := ⟨h.clean.trusted, h.clean.running⟩
    have hres : Resumable c { s with state := .normal } := hsafe hs
    obtain ⟨hcalm, hend⟩ := calm_locResumeAll (k := stateChanged c k) (c := c)
      (s := { s with state := .normal }) rfl hres
    have hquiet := hcalm.quiet hclean
    obtain ⟨hst, hsec⟩ | hiso := hend
    · refine (calm_checkIsolated (hst.monitored.trans rfl) ?_).quiet hquiet.clean
      obtain hrec | ⟨-, hoff | hl | hnone⟩ := hst.secure hsec
      · have hne : MonitorState.recovering = .normal := hrec.symm.trans hst.monitored
        cases hne
      · exact .inr (.inl (.inl hoff))
      · exact .inl hl
      · exact .inr (.inl (.inr hnone))
    · rw [checkIsolated_held (.inl hiso)]
      exact hquiet
  · exact h

theorem quiet_isoLiftQuarantine {s : Clerk} (h : Quiet c s) :
    Quiet c (isoLiftQuarantine c (stateChanged c k) s) := by
  have hsec : Secure c { s with state := .recovering } := .inl rfl
  exact ((steady_locResumeAll hsec).calm hsec.not_blind).quiet ⟨h.clean.trusted, h.clean.running⟩

theorem quiet_onPatientRemoved {s : Clerk} (h : Quiet c s) (hplaced : Placed s) {key : String}
    {r : Ref} {p : Patient} (hp : s.patient key = some (r, p)) (hsafe : SafeRemoval c s key r p) :
    Quiet c (onPatientRemoved c (stateChanged c k) key p s) := by
  obtain ⟨-, hpat⟩ := patient_eq_some.mp hp
  obtain ⟨-, hloc, hpl⟩ := hplaced.resident r key p hpat
  have hr : r ∈ iterLocations c s := mem_iterLocations.mpr ⟨_, hloc⟩
  have hgone : Quiet c { s with patients := s.patients.erase key } :=
    ⟨⟨h.clean.trusted, h.clean.running⟩, h.held⟩
  have htaken : Quiet c (Clerk.update { s with patients := s.patients.erase key } r
      (Location.without key)) := hgone.update rfl
  have hout : Quiet c (removePatient c (stateChanged c k) r key p
      { s with patients := s.patients.erase key }).2 := by
    unfold removePatient
    dsimp only
    split
    · rename_i hcheck
      apply quiet_checkQuarantine htaken hr
      intro hasks hs
      have hheap : ∀ r', r' ≠ r → (Clerk.update { s with patients := s.patients.erase key } r
          (Location.without key)).heap r' = s.heap r' :=
        fun r' hr' => update_heap_ne _ _ hr'
      rw [update_heap_self] at hasks hcheck
      obtain ⟨r', hr', hne, hl⟩ | hnone := hsafe hcheck.1 hcheck.2 hasks hs
      · exact .inl ⟨r', hr', hne, by rwa [hheap r' hne]⟩
      · refine .inr fun r' hr' hne => ?_
        rw [hheap r' hne]
        exact hnone r' hr' hne
    · exact htaken
  unfold onPatientRemoved
  dsimp only
  rw [hpl, hloc]
  dsimp only
  split
  · refine ⟨⟨hout.clean.trusted, hout.clean.running⟩, fun hb r' hr' => hout.held hb r' ?_⟩
    obtain ⟨n, hn⟩ := mem_iterLocations.mp hr'
    apply mem_iterLocations.mpr
    by_cases hname : n = ((removePatient c (stateChanged c k) r key p
        { s with patients := s.patients.erase key }).2.heap r).name
    · subst hname
      rw [AList.lookup_erase] at hn
      cases hn
    · rw [AList.lookup_erase_ne hname] at hn
      exact ⟨n, hn⟩
  · exact hout

end Events

theorem quiet_onPatientAdded {s : Clerk} (h : Quiet c s) {key : String} {p : Patient}
    (hsafe : s.state.Blind → p.location ∈ s.locations) :
    Quiet c (onPatientAdded key p s) := by
  unfold onPatientAdded
  cases hr : s.locations.lookup p.location with
  | some r =>
    have hput : Quiet c (s.update r (fun l => { l with patients := l.patients.insert key p })) :=
      h.update rfl
    exact ⟨⟨hput.clean.trusted, hput.clean.running⟩, hput.held⟩
  | none =>
    -- the location is new, so the clerk sees
    refine ⟨⟨h.clean.trusted, h.clean.running⟩, fun hb => ?_⟩
    have hknown := AList.lookup_isSome.mpr (hsafe hb)
    rw [hr] at hknown
    cases hknown

theorem Quiet.noticed {s : Clerk} (h : Quiet c s) {n : Notice}
    (hn : ∀ key p st, n ≠ .dead key p st) : Quiet c { s with history := s.history ++ [n] } := by
  refine ⟨⟨fun key p st hm => ?_, h.clean.running⟩, h.held⟩
  obtain hm | hm := List.mem_append.mp hm
  · exact h.clean.trusted key p st hm
  · exact absurd (List.mem_singleton.mp hm).symm (hn key p st)

theorem countPatients_mark {s : Clerk} {key : String} {r : Ref} {p : Patient}
    {st : PatientState} :
    ((s.heap r).mark key p st).countPatients c.order st > 0 := by
  have hmem : (key, { p with state := st }) ∈ ((s.heap r).mark key p st).iterPatients c.order st :=
    mem_iterPatients.mpr ⟨AList.lookup_insert _, rfl⟩
  exact List.length_pos_of_mem hmem

/-- One safe event. -/
theorem step_quiet {s t : Clerk} {e : Event} (h : Quiet c s) (hplaced : Placed s)
    (hsafe : Safe c s e) (hstep : step c s e = some t) : Quiet c t := by
  have hmarked : ∀ {key r p st}, Quiet c (s.update r (Location.mark key p st)) :=
    fun {_ _ _ _} => h.update rfl
  have hknown : ∀ {key r p}, s.patient key = some (r, p) → r ∈ iterLocations c s := by
    intro key r p hp
    exact mem_iterLocations.mpr ⟨_, (hplaced.resident r key p (patient_eq_some.mp hp).2).2.1⟩
  cases e with
  | added key location period =>
    dsimp only [step] at hstep
    split at hstep
    · cases hstep
    · obtain rfl := Option.some.inj hstep
      exact quiet_onPatientAdded (h.noticed fun _ _ _ he => by cases he) hsafe
  | removed key =>
    obtain ⟨⟨r, p⟩, hp, hstep⟩ := Option.bind_eq_some_iff.mp hstep
    obtain rfl := Option.some.inj hstep
    exact quiet_onPatientRemoved h hplaced hp (hsafe _ hp)
  | dying key =>
    obtain ⟨⟨r, p⟩, hp, hstep⟩ := Option.bind_eq_some_iff.mp hstep
    dsimp only at hstep
    split at hstep
    · obtain rfl := Option.some.inj hstep
      exact hmarked
    · cases hstep
  | died key =>
    obtain ⟨⟨r, p⟩, hp, hstep⟩ := Option.bind_eq_some_iff.mp hstep
    dsimp only at hstep
    split at hstep
    · obtain rfl := Option.some.inj hstep
      apply quiet_patientDied hmarked (hknown hp)
      rw [update_heap_self]
      intro hon hlast hasks hs
      have hheap : ∀ r', r' ≠ r → (s.update r (.mark key p .dead)).heap r' = s.heap r' :=
        fun r' hr' => update_heap_ne _ _ hr'
      obtain ⟨r', hr', hne, hl⟩ | hnone := hsafe _ hp hon hlast hasks hs
      · exact .inl ⟨r', hr', hne, by rwa [hheap r' hne]⟩
      · refine .inr fun r' hr' hne => ?_
        rw [hheap r' hne]
        exact hnone r' hr' hne
    · cases hstep
  | resurrected key =>
    obtain ⟨⟨r, p⟩, hp, hstep⟩ := Option.bind_eq_some_iff.mp hstep
    dsimp only at hstep
    split at hstep
    · obtain rfl := Option.some.inj hstep
      have hnoticed : Quiet c { s.update r (.mark key p .alive) with
          history := s.history ++ [.resurrected key] } :=
        hmarked.noticed fun _ _ _ he => by cases he
      refine quiet_patientResurrected hnoticed (hknown hp) ?_
      show ((s.update r (.mark key p .alive)).heap r).countPatients c.order .alive > 0
      rw [update_heap_self]
      exact countPatients_mark
    · cases hstep
  | relapsed key =>
    obtain ⟨⟨r, p⟩, hp, hstep⟩ := Option.bind_eq_some_iff.mp hstep
    dsimp only at hstep
    split at hstep
    · obtain rfl := Option.some.inj hstep
      exact hmarked
    · cases hstep
  | disconnected =>
    obtain rfl := Option.some.inj hstep
    exact quiet_onDisconnected h
  | reconnected =>
    obtain rfl := Option.some.inj hstep
    exact quiet_onReconnected h hsafe
  | fired id =>
    obtain ⟨⟨delay, call⟩, hcall, hstep⟩ := Option.bind_eq_some_iff.mp hstep
    have herased : Rescheduled s { s with calls := s.calls.erase id } := ⟨_, _, _, _, rfl⟩
    have hquiet := h.rescheduled herased
    cases call with
    | liftLocation r =>
      obtain rfl := Option.some.inj hstep
      exact quiet_quarantineLifted hquiet (herased.steady.frame.placed hplaced) r (hsafe _ hcall)
    | liftIsolation =>
      obtain rfl := Option.some.inj hstep
      exact quiet_isoLiftQuarantine hquiet

/-! ## Runs -/

/-- In a run of safe events the coroner is called for dead patients only, once between two
    resurrections, and by a clerk that is neither disconnected nor isolated; in those two
    states every location the clerk knows is paused, and no callback goes too deep. -/
theorem coroner_trusted (c : Config) {es : List Event} {s : Clerk}
    (hrun : Run (Guarded (Safe c) (Defined (step c))) .new es s) :
    (∀ key p st, .dead key p st ∈ s.history → p = .dead ∧ st ≠ .disconnected ∧ st ≠ .isolated) ∧
    Once s.history ∧
    ((s.state = .disconnected ∨ s.state = .isolated) →
      ∀ name r, s.locations.lookup name = some r → (s.heap r).paused = true) ∧
    s.exhausted = false := by
  have hnew : (Placed .new ∧ Reported .new) ∧ Quiet c .new := by
    refine ⟨new_reported, ⟨fun key p st hm => ?_, rfl⟩, fun hb => ?_⟩
    · simp [Clerk.new] at hm
    · exact absurd hb (show ¬ MonitorState.Blind .normal by decide)
  have hone : ∀ s e t, (Placed s ∧ Reported s) ∧ Quiet c s →
      Guarded (Safe c) (Defined (step c)) s e t → (Placed t ∧ Reported t) ∧ Quiet c t :=
    fun s e t hs hst => ⟨step_reported hs.1 hst.2, step_quiet hs.2 hs.1.1 hst.1 hst.2⟩
  obtain ⟨⟨-, hreported⟩, hquiet⟩ := hrun.preserves hone hnew
  refine ⟨fun key p st hm => ⟨hreported.dead key p st hm, ?_, ?_⟩, hreported.once,
    fun hb name r hr => hquiet.held hb r (mem_iterLocations.mpr ⟨name, hr⟩), hquiet.clean.running⟩
  · exact fun hs => hquiet.clean.trusted key p st hm (.inl hs)
  · exact fun hs => hquiet.clean.trusted key p st hm (.inr hs)

/-- A monitor on one host, walking its dictionaries as they were filled. -/
def localMonitor : Config := ⟨"localhost", true, 90, 90, .stored⟩

/-- Two agents on another host: one dies and is reported, the monitor is disconnected and
    connected again. -/
theorem coroner_trusted_reconnected :
    ∃ s, ([.added "a" "host" 10, .added "b" "host" 10, .died "a", .disconnected, .reconnected]
        : List Event).foldlM (checked (Safe localMonitor) (step localMonitor)) .new = some s ∧
      s.history = [.added "a", .added "b", .dead "a" .dead .normal] ∧
      (s.state = .disconnected ∨ s.state = .isolated →
        ∀ name r, s.locations.lookup name = some r → (s.heap r).paused = true) := by
  obtain ⟨s, hs, hhist⟩ : ∃ s, ([.added "a" "host" 10, .added "b" "host" 10, .died "a",
        .disconnected, .reconnected] : List Event).foldlM
          (checked (Safe localMonitor) (step localMonitor)) .new = some s ∧
      s.history = [.added "a", .added "b", .dead "a" .dead .normal] := by
    apply Option.map_eq_some_iff.mp
    decide +kernel
  exact ⟨s, hs, hhist, (coroner_trusted localMonitor (run_checked hs)).2.2.1⟩

/-- Two agents are added on a host not known before while the monitor is disconnected. The
    new location is not paused, and the coroner hears of the death of one of them. -/
theorem new_location_unpaused :
    ¬ ∀ (c : Config) (es : List Event) (s : Clerk), Run (Defined (step c)) .new es s →
      ∀ key p st, .dead key p st ∈ s.history →
        p = .dead ∧ st ≠ .disconnected ∧ st ≠ .isolated := by
  intro h
  obtain ⟨s, hs, hhist⟩ : ∃ s, ([.disconnected, .added "a" "host" 10, .added "b" "host" 10,
        .died "a"] : List Event).foldlM (step localMonitor) .new = some s ∧
      s.history = [.added "a", .added "b", .dead "a" .dead .disconnected] := by
    apply Option.map_eq_some_iff.mp
    decide +kernel
  exact (h localMonitor _ s (run_defined hs) "a" .dead .disconnected (by simp [hhist])).2.1 rfl

-- all hosts died while the monitor was away: the first one resumed isolates the clerk, and
-- the loop goes on to the second
example :
    (([.added "a" "h1" 10, .added "b" "h2" 10, .disconnected, .died "a", .died "b", .reconnected]
      : List Event).foldlM (step localMonitor) .new).map
        (fun s => (s.state, (iterLocations localMonitor s).map fun r => (s.heap r).paused)) =
      some (.isolated, [true, false]) := by decide +kernel

end Feat.Agents.Monitor
