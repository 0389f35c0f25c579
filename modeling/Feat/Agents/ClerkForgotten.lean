import Feat.Agents.ClerkPending

/- What a location can do that the clerk has forgotten.

   The object of a location that left is reached through a call that was scheduled for it, and
   in no other way. Where no such call is pending, an event does the same whatever the object
   holds, and leaves it as it is (`step_put`). -/
namespace Feat.Agents.Monitor
open Hash Transition

variable {c : Config} {s : Clerk} {q r : Ref} {l : Location}

/-- Another content of a location. -/
def Clerk.put (s : Clerk) (q : Ref) (l : Location) : Clerk := s.update q fun _ => l

theorem put_heap (h : r ≠ q) : (s.put q l).heap r = s.heap r := update_heap_ne _ _ h

theorem put_update (h : r ≠ q) (f : Location → Location) :
    (s.put q l).update r f = (s.update r f).put q l := by
  unfold Clerk.update
  rw [put_heap h]
  unfold Clerk.put Clerk.update
  dsimp only
  rw [Function.update_comm h]

/-! ## Calls -/

theorem put_locCancelCall (h : r ≠ q) : locCancelCall r (s.put q l) = (locCancelCall r s).put q l := by
  unfold locCancelCall
  rw [put_heap h, show (s.put q l).locationCalls = s.locationCalls from rfl]
  dsimp only
  cases s.locationCalls.lookup (s.heap r).name with
  | none => rfl
  | some id => rfl

theorem put_locScheduleCall (h : r ≠ q) (delay : Nat) :
    locScheduleCall delay r (s.put q l) = (locScheduleCall delay r s).put q l := by
  rw [locScheduleCall_eq, locScheduleCall_eq, put_locCancelCall h]
  dsimp only
  rw [put_heap h]
  rfl

theorem put_isoCancelCall : isoCancelCall (s.put q l) = (isoCancelCall s).put q l := by
  unfold isoCancelCall
  rw [show (s.put q l).isolatedCall = s.isolatedCall from rfl]
  cases s.isolatedCall with
  | none => rfl
  | some id => rfl

theorem put_isoScheduleCall (delay : Nat) :
    isoScheduleCall delay (s.put q l) = (isoScheduleCall delay s).put q l := by
  rw [isoScheduleCall_eq, isoScheduleCall_eq, put_isoCancelCall]
  rfl

/-! ## Deaths -/

theorem put_notifyDeath (h : r ≠ q) (key : String) (p : Patient) :
    notifyDeath r key p (s.put q l) = (notifyDeath r key p s).put q l := by
  unfold notifyDeath
  rw [put_heap h, put_update h]
  split
  · rfl
  · split
    · rfl
    · rfl

theorem put_bringOutYourDead (h : r ≠ q) :
    bringOutYourDead c r (s.put q l) = (bringOutYourDead c r s).put q l := by
  unfold bringOutYourDead
  rw [put_heap h]
  generalize (s.heap r).iterPatients c.order .dead = dead
  induction dead generalizing s with
  | nil => rfl
  | cons p dead ih =>
    rw [List.foldl_cons, List.foldl_cons, put_notifyDeath h]
    exact ih

/-! ## Pausing, resuming and quarantine -/

/-- The location stays unknown whatever is called back. -/
theorem unknown_closed (c : Config) (q : Ref) : Closed fun s => q ∉ iterLocations c s where
  located _ _ _ h := h
  paused _ _ _ h := h
  monitored _ _ h := h
  scheduled _ _ _ _ _ h := h
  exhausted _ h := h
  notified s r key p h _ _ := by
    rw [(settled_notifyDeath s r key p).frame.iterLocations]
    exact h

/-- A callback that does not look at a location that the clerk does not know. -/
structure Oblivious (c : Config) (q : Ref) (k : Ref → Clerk → Clerk) : Prop where
  put : ∀ r s l, r ≠ q → q ∉ iterLocations c s → k r (s.put q l) = (k r s).put q l
  unknown : ∀ r s, q ∉ iterLocations c s → q ∉ iterLocations c (k r s)

section Callbacks
variable {k : Ref → Clerk → Clerk}

theorem put_setState (hk : Oblivious c q k) (h : r ≠ q) (hq : q ∉ iterLocations c s)
    (st : LocationState) : setState k r st (s.put q l) = (setState k r st s).put q l := by
  unfold setState
  rw [put_update h]
  exact hk.put r _ l h hq

theorem put_pause (hk : Oblivious c q k) (h : r ≠ q) (hq : q ∉ iterLocations c s) :
    pause k r (s.put q l) = (pause k r s).put q l := by
  unfold pause
  rw [put_update h]
  dsimp only
  rw [put_heap h]
  split
  · exact put_setState (s := s.update r fun l => { l with paused := true }) hk h hq .normal
  · rfl

theorem put_locPauseAll (hk : Oblivious c q k) (hq : q ∉ iterLocations c s) :
    locPauseAll c k (s.put q l) = (locPauseAll c k s).put q l := by
  have hfold : ∀ (rs : List Ref) (t : Clerk), q ∉ rs → q ∉ iterLocations c t →
      rs.foldl (fun s r => pause k r (locCancelCall r s)) (t.put q l) =
        (rs.foldl (fun s r => pause k r (locCancelCall r s)) t).put q l := by
    intro rs
    induction rs with
    | nil => exact fun _ _ _ => rfl
    | cons r rs ih =>
      intro t hrs ht
      have hne : r ≠ q := fun he => hrs (he ▸ List.mem_cons_self)
      have hcancel : q ∉ iterLocations c (locCancelCall r t) :=
        closed_rescheduled (unknown_closed c q) (rescheduled_locCancelCall r t) ht
      rw [List.foldl_cons, List.foldl_cons, put_locCancelCall hne, put_pause hk hne hcancel]
      exact ih _ (fun hin => hrs (List.mem_cons_of_mem _ hin))
        (closed_pause (unknown_closed c q) hk.unknown hcancel)
  exact hfold (iterLocations c s) s hq hq

theorem put_checkIsolated (hk : Oblivious c q k) (hq : q ∉ iterLocations c s) :
    checkIsolated c k (s.put q l) =
      ((checkIsolated c k s).1, (checkIsolated c k s).2.put q l) := by
  have hlively : (∃ r ∈ iterLocations c (s.put q l), Lively c ((s.put q l).heap r)) ↔
      ∃ r ∈ iterLocations c s, Lively c (s.heap r) := by
    refine exists_congr fun r => and_congr_right fun hr => ?_
    rw [put_heap fun he : r = q => hq (he ▸ hr)]
  unfold checkIsolated
  rw [show (s.put q l).state = s.state from rfl]
  by_cases hseeing : s.state = .isolated ∨ s.state = .recovering
  · rw [if_pos hseeing, if_pos hseeing]
  · rw [if_neg hseeing, if_neg hseeing]
    by_cases hother : ∃ r ∈ iterLocations c s, Lively c (s.heap r)
    · rw [if_pos hother, if_pos (hlively.mpr hother)]
    · rw [if_neg hother, if_neg fun h => hother (hlively.mp h)]
      dsimp only
      have hput : isoScheduleCall c.selfQuarantineLength { s.put q l with state := .isolated } =
          (isoScheduleCall c.selfQuarantineLength { s with state := .isolated }).put q l :=
        put_isoScheduleCall (s := { s with state := .isolated }) _
      rw [hput, put_locPauseAll hk]
      exact closed_rescheduled (unknown_closed c q) (rescheduled_isoScheduleCall _ _) hq

theorem put_startQuarantine (hk : Oblivious c q k) (h : r ≠ q) (hq : q ∉ iterLocations c s) :
    startQuarantine k r (s.put q l) = (startQuarantine k r s).put q l := by
  unfold startQuarantine
  rw [put_heap h]
  split
  · exact put_setState hk h hq .isolated
  · rfl

theorem put_needQuarantine (hk : Oblivious c q k) (h : r ≠ q) (hq : q ∉ iterLocations c s) :
    needQuarantine c k r (s.put q l) = (needQuarantine c k r s).put q l := by
  have hstart : locStartQuarantine c k r (s.put q l) = (locStartQuarantine c k r s).put q l := by
    unfold locStartQuarantine
    rw [put_checkIsolated hk hq]
    dsimp only
    split
    · rfl
    · rw [put_locCancelCall h, put_startQuarantine hk h]
      exact closed_rescheduled (unknown_closed c q) (rescheduled_locCancelCall _ _)
        (closed_checkIsolated (unknown_closed c q) hk.unknown hq)
  unfold needQuarantine
  rw [hstart]
  dsimp only
  rw [show ((locStartQuarantine c k r s).put q l).state = (locStartQuarantine c k r s).state from rfl]
  split
  · exact put_locScheduleCall h _
  · rfl

theorem put_locationRecovering (hk : Oblivious c q k) (h : r ≠ q) (hq : q ∉ iterLocations c s) :
    locationRecovering c k r (s.put q l) = (locationRecovering c k r s).put q l := by
  have hstart : startRecovery c k r (s.put q l) =
      ((startRecovery c k r s).1, (startRecovery c k r s).2.put q l) := by
    unfold startRecovery
    rw [put_heap h]
    split
    · dsimp only
      split
      · rw [put_setState hk h hq, put_heap h]
      · rw [put_heap h]
    · rfl
  unfold locationRecovering
  rw [hstart]
  exact put_locScheduleCall h _

theorem put_resume (hk : Oblivious c q k) (h : r ≠ q) (hq : q ∉ iterLocations c s) :
    resume c k r (s.put q l) = (resume c k r s).put q l := by
  unfold resume
  rw [put_update h]
  dsimp only
  rw [put_heap h]
  split
  · exact put_bringOutYourDead h
  · split
    · exact put_needQuarantine hk h hq
    · exact put_locationRecovering hk h hq
    · rfl

theorem put_locResumeAll (hk : Oblivious c q k) (hq : q ∉ iterLocations c s) :
    locResumeAll c k (s.put q l) = (locResumeAll c k s).put q l := by
  have hfold : ∀ (rs : List Ref) (t : Clerk), q ∉ rs → q ∉ iterLocations c t →
      rs.foldl (fun s r => resume c k r s) (t.put q l) =
        (rs.foldl (fun s r => resume c k r s) t).put q l := by
    intro rs
    induction rs with
    | nil => exact fun _ _ _ => rfl
    | cons r rs ih =>
      intro t hrs ht
      have hne : r ≠ q := fun he => hrs (he ▸ List.mem_cons_self)
      rw [List.foldl_cons, List.foldl_cons, put_resume hk hne ht]
      exact ih _ (fun hin => hrs (List.mem_cons_of_mem _ hin))
        (closed_resume (unknown_closed c q) hk.unknown ht)
  exact hfold (iterLocations c s) s hq hq

theorem put_stateChanged (hk : Oblivious c q k) (h : r ≠ q) (hq : q ∉ iterLocations c s) :
    stateChanged c k r (s.put q l) = (stateChanged c k r s).put q l := by
  have hcancelled : (if ((s.put q l).heap r).state = .normal then locCancelCall r (s.put q l)
        else s.put q l) =
      (if (s.heap r).state = .normal then locCancelCall r s else s).put q l := by
    rw [put_heap h]
    split
    · exact put_locCancelCall h
    · rfl
  have hunknown : q ∉ iterLocations c
      (if (s.heap r).state = .normal then locCancelCall r s else s) := by
    split
    · exact closed_rescheduled (unknown_closed c q) (rescheduled_locCancelCall _ _) hq
    · exact hq
  unfold stateChanged
  rw [hcancelled]
  dsimp only
  generalize (if (s.heap r).state = .normal then locCancelCall r s else s) = u at hunknown ⊢
  rw [put_heap h, show (u.put q l).state = u.state from rfl]
  split
  · split
    · have hput : isoCancelCall { u.put q l with state := .normal } =
          (isoCancelCall { u with state := .normal }).put q l :=
        put_isoCancelCall (s := { u with state := .normal })
      rw [hput, put_locResumeAll hk]
      exact closed_rescheduled (unknown_closed c q)
        (rescheduled_isoCancelCall { u with state := .normal }) hunknown
    · rfl
  · have hall : (∀ r' ∈ iterLocations c (u.put q l), ((u.put q l).heap r').state = .normal) ↔
        ∀ r' ∈ iterLocations c u, (u.heap r').state = .normal := by
      refine forall_congr' fun r' => imp_congr_right fun hr' => ?_
      rw [put_heap fun he : r' = q => hunknown (he ▸ hr')]
    by_cases hnormal : ∀ r' ∈ iterLocations c u, (u.heap r').state = .normal
    · rw [if_pos hnormal, if_pos (hall.mpr hnormal)]
      rfl
    · rw [if_neg hnormal, if_neg fun hn => hnormal (hall.mp hn)]
  · rfl

theorem put_checkQuarantine (hk : Oblivious c q k) (h : r ≠ q) (hq : q ∉ iterLocations c s) :
    checkQuarantine c k r (s.put q l) = (checkQuarantine c k r s).put q l := by
  unfold checkQuarantine
  rw [put_heap h, put_setState hk h hq]
  dsimp only
  rw [put_heap h]
  split
  · rfl
  · split
    · rfl
    · split
      · split
        · rfl
        · exact put_needQuarantine hk h (closed_setState (unknown_closed c q) hk.unknown hq)
      · rfl

end Callbacks

theorem oblivious_locationStateChanged (q : Ref) (depth : Nat) :
    Oblivious c q (locationStateChanged c depth) := by
  refine ⟨?_, fun r s hq => closed_locationStateChanged (unknown_closed c q) hq⟩
  induction depth with
  | zero => exact fun _ _ _ _ _ => rfl
  | succ depth ih =>
    exact fun r s l h hq => put_stateChanged
      ⟨ih, fun _ _ hu => closed_locationStateChanged (unknown_closed c q) hu⟩ h hq

/-! ## Events -/

section Events
variable {k : Ref → Clerk → Clerk}

theorem put_patientDied (hk : Oblivious c q k) (h : r ≠ q) (hq : q ∉ iterLocations c s)
    (key : String) (p : Patient) :
    patientDied c k r key p (s.put q l) = (patientDied c k r key p s).put q l := by
  unfold patientDied
  rw [put_heap h]
  split
  · exact put_notifyDeath h key p
  · split
    · exact put_notifyDeath h key p
    · exact put_checkQuarantine hk h hq

theorem put_patientResurrected (hk : Oblivious c q k) (h : r ≠ q) (hq : q ∉ iterLocations c s)
    (key : String) :
    patientResurrected c k r key (s.put q l) = (patientResurrected c k r key s).put q l := by
  rw [patientResurrected_eq, patientResurrected_eq, put_update h]
  have hu : q ∉ iterLocations c (s.update r (.forget key)) := hq
  generalize s.update r (.forget key) = u at hu ⊢
  have hset : ∀ st, k r ((u.put q l).locate r st) = (k r (u.locate r st)).put q l :=
    fun st => put_setState hk h hu st
  dsimp only
  rw [put_heap h, hset, hset, put_heap h]
  split
  · rfl
  · split
    · split
      · rfl
      · rfl
    · split
      · rfl
      · split
        · rfl
        · exact put_locationRecovering hk h
            (closed_setState (unknown_closed c q) hk.unknown hu)

theorem put_removePatient (hk : Oblivious c q k) (h : r ≠ q) (hq : q ∉ iterLocations c s)
    (key : String) (p : Patient) :
    removePatient c k r key p (s.put q l) =
      ((removePatient c k r key p s).1, (removePatient c k r key p s).2.put q l) := by
  unfold removePatient
  rw [put_update h]
  have hu : q ∉ iterLocations c (s.update r fun l =>
      { l with patients := l.patients.erase key, dead := l.dead.erase key }) := hq
  generalize (s.update r fun l =>
    { l with patients := l.patients.erase key, dead := l.dead.erase key }) = u at hu ⊢
  dsimp only
  rw [put_heap h]
  by_cases hcheck : c.enableQuarantine = true ∧ (u.heap r).state = .normal ∧ p.state ≠ .dead
  · rw [if_pos hcheck, if_pos hcheck, put_checkQuarantine hk h hu, put_heap h]
  · rw [if_neg hcheck, if_neg hcheck, put_heap h]

theorem onPatientRemoved_known {key : String} {p : Patient}
    (hlookup : s.locations.lookup p.location = some r) :
    onPatientRemoved c k key p s =
      let u := removePatient c k r key p { s with patients := s.patients.erase key }
      if u.1 then { u.2 with locations := u.2.locations.erase (u.2.heap r).name } else u.2 := by
  unfold onPatientRemoved
  dsimp only
  rw [hlookup]

theorem put_onPatientRemoved (hk : Oblivious c q k) (hq : q ∉ iterLocations c s) (key : String)
    (p : Patient) :
    onPatientRemoved c k key p (s.put q l) = (onPatientRemoved c k key p s).put q l := by
  cases hlookup : s.locations.lookup p.location with
  | none =>
    unfold onPatientRemoved
    dsimp only
    rw [show (s.put q l).locations = s.locations from rfl, hlookup]
    rfl
  | some r =>
    have hne : r ≠ q := fun he => hq (mem_iterLocations.mpr ⟨_, he ▸ hlookup⟩)
    have hput : removePatient c k r key p
          { s.put q l with patients := (s.put q l).patients.erase key } =
        ((removePatient c k r key p { s with patients := s.patients.erase key }).1,
          (removePatient c k r key p { s with patients := s.patients.erase key }).2.put q l) :=
      put_removePatient (s := { s with patients := s.patients.erase key }) hk hne hq key p
    rw [onPatientRemoved_known (s := s.put q l) hlookup, onPatientRemoved_known hlookup, hput]
    dsimp only
    rw [put_heap hne]
    split
    · rfl
    · rfl

theorem put_onPatientAdded (hq : q ∉ iterLocations c s) (hmade : q < s.created) (key : String)
    (p : Patient) : onPatientAdded key p (s.put q l) = (onPatientAdded key p s).put q l := by
  unfold onPatientAdded
  rw [show (s.put q l).locations = s.locations from rfl,
    show (s.put q l).created = s.created from rfl]
  cases hlookup : s.locations.lookup p.location with
  | some r =>
    have hne : r ≠ q := fun he => hq (mem_iterLocations.mpr ⟨_, he ▸ hlookup⟩)
    dsimp only
    rw [put_update hne]
    rfl
  | none =>
    have hne : s.created ≠ q := (Nat.ne_of_lt hmade).symm
    have hnew : ({ (s.put q l).update s.created (fun _ => .new p.location) with
          created := s.created + 1
          locations := s.locations.insert p.location s.created } : Clerk) =
        Clerk.put { s.update s.created (fun _ => .new p.location) with
          created := s.created + 1
          locations := s.locations.insert p.location s.created } q l := by
      rw [put_update hne]
      rfl
    dsimp only
    rw [hnew, put_update hne]
    rfl

theorem put_quarantineLifted (hk : Oblivious c q k) (h : r ≠ q) (hq : q ∉ iterLocations c s) :
    quarantineLifted c k r (s.put q l) = (quarantineLifted c k r s).put q l := by
  unfold quarantineLifted
  rw [put_setState hk h hq, put_bringOutYourDead h]

theorem put_onDisconnected (hk : Oblivious c q k) (hq : q ∉ iterLocations c s) :
    onDisconnected c k (s.put q l) = (onDisconnected c k s).put q l := by
  unfold onDisconnected
  rw [show (s.put q l).state = s.state from rfl, put_isoCancelCall]
  split
  · have hcancelled : q ∉ iterLocations c (isoCancelCall s) :=
      closed_rescheduled (unknown_closed c q) (rescheduled_isoCancelCall s) hq
    exact put_locPauseAll (s := { isoCancelCall s with state := .disconnected }) hk hcancelled
  · rfl

theorem put_onReconnected (hk : Oblivious c q k) (hq : q ∉ iterLocations c s) :
    onReconnected c k (s.put q l) = (onReconnected c k s).put q l := by
  unfold onReconnected
  rw [show (s.put q l).state = s.state from rfl]
  split
  · have hput : locResumeAll c k { s.put q l with state := .normal } =
        (locResumeAll c k { s with state := .normal }).put q l :=
      put_locResumeAll (s := { s with state := .normal }) hk hq
    rw [hput, put_checkIsolated hk]
    exact closed_locResumeAll (unknown_closed c q) hk.unknown hq
  · rfl

end Events

/-- Nobody reaches a location but through the clerk, and the clerk does not know it. -/
theorem step_put (hq : q ∉ iterLocations c s) (hmade : q < s.created)
    (hempty : ∀ key, s.patients.lookup key ≠ some q) (hcall : ¬ s.Lifting q) (l : Location)
    (e : Event) : step c (s.put q l) e = (step c s e).map fun t => t.put q l := by
  have hk : Oblivious c q (locationStateChanged c (s.locations.keys.length + 1)) :=
    oblivious_locationStateChanged q _
  have hpatient : ∀ key, (s.put q l).patient key = s.patient key := by
    intro key
    unfold Clerk.patient
    rw [show (s.put q l).patients = s.patients from rfl]
    cases hlookup : s.patients.lookup key with
    | none => rfl
    | some r =>
      have hne : r ≠ q := fun he => hempty key (he ▸ hlookup)
      simp only [Option.bind_eq_bind, Option.bind_some, put_heap hne]
  have hat : ∀ key r p, s.patient key = some (r, p) → r ≠ q :=
    fun key r p hp he => hempty key (he ▸ (patient_eq_some.mp hp).1)
  -- what is done with the patient of a key, if there is one
  have hbind : ∀ key (f g : Ref × Patient → Option Clerk),
      (∀ r p, r ≠ q → g (r, p) = (f (r, p)).map fun t => t.put q l) →
      ((s.put q l).patient key).bind g = ((s.patient key).bind f).map fun t => t.put q l := by
    intro key f g hfg
    rw [hpatient]
    cases hp : s.patient key with
    | none => rfl
    | some rp =>
      obtain ⟨r, p⟩ := rp
      exact hfg r p (hat key r p hp)
  cases e with
  | added key location period =>
    dsimp only [step]
    rw [show (s.put q l).patients = s.patients from rfl]
    split
    · rfl
    · exact congrArg some (put_onPatientAdded
        (s := { s with history := s.history ++ [.added key] }) hq hmade key _)
  | removed key =>
    refine hbind key _ _ fun r p _ => ?_
    exact congrArg some (put_onPatientRemoved hk hq key p)
  | dying key =>
    refine hbind key _ _ fun r p hne => ?_
    dsimp only
    split
    · exact congrArg some (put_update hne _)
    · rfl
  | died key =>
    refine hbind key _ _ fun r p hne => ?_
    dsimp only
    split
    · rw [put_update hne]
      exact congrArg some (put_patientDied (s := s.update r (.mark key p .dead)) hk hne hq key _)
    · rfl
  | resurrected key =>
    refine hbind key _ _ fun r p hne => ?_
    dsimp only
    split
    · rw [put_update hne]
      exact congrArg some (put_patientResurrected (s := { s.update r (.mark key p .alive) with
        history := s.history ++ [.resurrected key] }) hk hne hq key)
    · rfl
  | relapsed key =>
    refine hbind key _ _ fun r p hne => ?_
    dsimp only
    split
    · exact congrArg some (put_update hne _)
    · rfl
  | disconnected => exact congrArg some (put_onDisconnected hk hq)
  | reconnected => exact congrArg some (put_onReconnected hk hq)
  | fired id =>
    dsimp only [step]
    rw [show (s.put q l).calls = s.calls from rfl]
    cases hid : s.calls.lookup id with
    | none => rfl
    | some x =>
      obtain ⟨delay, call⟩ := x
      cases call with
      | liftLocation r =>
        have hne : r ≠ q := fun he => hcall ⟨id, delay, he ▸ hid⟩
        exact congrArg some
          (put_quarantineLifted (s := { s with calls := s.calls.erase id }) hk hne hq)
      | liftIsolation =>
        exact congrArg some (put_locResumeAll
          (s := { s with calls := s.calls.erase id, state := .recovering }) hk hq)

end Feat.Agents.Monitor
