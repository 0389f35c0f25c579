import Feat.Agents.ClerkTrust

/- What happens to the locations while the clerk pauses and resumes them.

   Whatever calls whatever there, a location changes its state in one way only: when it is
   paused while it is recovering, it goes back to normal (`Settled`). So each round of
   callbacks leaves one recovering location less, and the depth to which the model follows
   them is enough (`never_exhausted`). -/
namespace Feat.Agents.Monitor
open Hash Transition

variable {c : Config}

/-- No location changes its state but from recovering to normal, deaths may be notified, and
    no callback goes too deep. -/
structure Settled (s t : Clerk) : Prop where
  frame : Frame s t
  located : ∀ r, (t.heap r).state = (s.heap r).state ∨
    (s.heap r).state = .recovering ∧ (t.heap r).state = .normal
  flagged : ∀ r, (s.heap r).dead ⊆ (t.heap r).dead
  history : ∃ es, t.history = s.history ++ es ∧ ∀ e ∈ es, ∃ key p st, e = .dead key p st
  running : s.exhausted = false → t.exhausted = false

theorem Settled.refl (s : Clerk) : Settled s s :=
  ⟨.refl s, fun _ => .inl rfl, fun _ _ h => h, ⟨[], by simp⟩, id⟩

theorem Settled.trans {s t u : Clerk} (h : Settled s t) (h' : Settled t u) : Settled s u := by
  refine ⟨h.frame.trans h'.frame, fun r => ?_, fun r k hk => h'.flagged r (h.flagged r hk), ?_,
    fun hs => h'.running (h.running hs)⟩
  · obtain hsame | ⟨hrec, hnormal⟩ := h.located r
    · rw [← hsame]
      exact h'.located r
    · obtain hsame | ⟨hrec', -⟩ := h'.located r
      · exact .inr ⟨hrec, hsame.trans hnormal⟩
      · rw [hnormal] at hrec'
        cases hrec'
  · obtain ⟨es, hes, hdead⟩ := h.history
    obtain ⟨es', hes', hdead'⟩ := h'.history
    refine ⟨es ++ es', by rw [hes', hes, List.append_assoc], fun e he => ?_⟩
    obtain he | he := List.mem_append.mp he
    · exact hdead e he
    · exact hdead' e he

theorem Rescheduled.settled {s t : Clerk} (h : Rescheduled s t) : Settled s t := by
  obtain ⟨calls, lc, ic, n, rfl⟩ := h
  exact ⟨⟨rfl, rfl, rfl, fun _ => rfl, fun _ => rfl⟩, fun _ => .inl rfl, fun _ _ h => h,
    ⟨[], by simp⟩, id⟩

theorem settled_monitored (s : Clerk) (st : MonitorState) : Settled s { s with state := st } :=
  ⟨⟨rfl, rfl, rfl, fun _ => rfl, fun _ => rfl⟩, fun _ => .inl rfl, fun _ _ h => h,
    ⟨[], by simp⟩, id⟩

/-- An assignment to a location that leaves its state, its patients and what it notified. -/
theorem settled_update (s : Clerk) (r : Ref) (f : Location → Location)
    (hname : (f (s.heap r)).name = (s.heap r).name)
    (hresidents : (f (s.heap r)).patients = (s.heap r).patients)
    (hlocated : (f (s.heap r)).state = (s.heap r).state ∨
      (s.heap r).state = .recovering ∧ (f (s.heap r)).state = .normal)
    (hflagged : (s.heap r).dead ⊆ (f (s.heap r)).dead) : Settled s (s.update r f) := by
  refine ⟨(Frame.refl s).update hname hresidents, fun r' => ?_, fun r' => ?_,
    ⟨[], by simp [Clerk.update]⟩, id⟩
  · by_cases hr : r' = r
    · subst hr
      rw [update_heap_self]
      exact hlocated
    · exact .inl (by rw [update_heap_ne _ _ hr])
  · by_cases hr : r' = r
    · subst hr
      rw [update_heap_self]
      exact hflagged
    · exact fun _ h => by rwa [update_heap_ne _ _ hr]

theorem settled_paused (s : Clerk) (r : Ref) (b : Bool) :
    Settled s (s.update r (fun l => { l with paused := b })) :=
  settled_update s r _ rfl rfl (.inl rfl) fun _ h => h

theorem settled_notifyDeath (s : Clerk) (r : Ref) (key : String) (p : Patient) :
    Settled s (notifyDeath r key p s) := by
  unfold notifyDeath
  split
  · exact .refl s
  · split
    · exact .refl s
    · have h := settled_update s r (fun l => { l with dead := insert key l.dead }) rfl rfl
        (.inl rfl) (Finset.subset_insert _ _)
      exact h.trans ⟨⟨rfl, rfl, rfl, fun _ => rfl, fun _ => rfl⟩, fun _ => .inl rfl,
        fun _ _ h => h, ⟨[_], rfl, by simp⟩, id⟩

theorem settled_bringOutYourDead (s : Clerk) (r : Ref) : Settled s (bringOutYourDead c r s) := by
  unfold bringOutYourDead
  generalize (s.heap r).iterPatients c.order .dead = l
  induction l generalizing s with
  | nil => exact .refl s
  | cons q l ih => exact (settled_notifyDeath s r q.1 q.2).trans (ih _)

/-! ## The depth of callbacks -/

/-- How many locations are recovering. -/
def recoveringCount (c : Config) (s : Clerk) : Nat :=
  (iterLocations c s).countP fun r => (s.heap r).state = .recovering

theorem Settled.recoveringCount_le {s t : Clerk} (h : Settled s t) :
    recoveringCount c t ≤ recoveringCount c s := by
  unfold recoveringCount
  rw [h.frame.iterLocations]
  refine List.countP_mono_left fun r _ hrec => ?_
  obtain hsame | ⟨hrec', -⟩ := h.located r
  · simpa [hsame] using hrec
  · simpa using hrec'

theorem Settled.recoveringCount_lt {s t : Clerk} (h : Settled s t) {r : Ref}
    (hr : r ∈ iterLocations c s) (hs : (s.heap r).state = .recovering)
    (ht : (t.heap r).state = .normal) : recoveringCount c t < recoveringCount c s := by
  have hmono : ∀ l : List Ref, (l.countP fun r => (t.heap r).state = .recovering) ≤
      l.countP fun r => (s.heap r).state = .recovering := by
    refine fun l => List.countP_mono_left fun r _ hrec => ?_
    obtain hsame | ⟨hrec', -⟩ := h.located r
    · simpa [hsame] using hrec
    · simpa using hrec'
  unfold recoveringCount
  rw [h.frame.iterLocations]
  obtain ⟨xs, ys, hsplit⟩ := List.append_of_mem hr
  rw [hsplit, List.countP_append, List.countP_append,
    List.countP_cons_of_neg (by simp [ht]), List.countP_cons_of_pos (by simp [hs])]
  have hxs := hmono xs
  have hys := hmono ys
  omega

/-! ## Pausing and resuming -/

section Depth
variable {k : Ref → Clerk → Clerk} {depth : Nat}

theorem settled_pause (hk : ∀ r s, recoveringCount c s < depth → Settled s (k r s)) {s : Clerk}
    {r : Ref} (hr : r ∈ iterLocations c s) (hs : recoveringCount c s ≤ depth) :
    Settled s (pause k r s) := by
  have hpaused := settled_paused s r true
  unfold pause
  dsimp only
  split
  · rename_i hrec
    refine hpaused.trans ?_
    generalize s.update r (fun l => { l with paused := true }) = u at hpaused hrec ⊢
    have hnormal := settled_update u r (fun l => { l with state := .normal }) rfl rfl
      (.inr ⟨hrec, rfl⟩) fun _ h => h
    have hr' : r ∈ iterLocations c u := by
      rw [hpaused.frame.iterLocations]
      exact hr
    refine hnormal.trans (hk _ _ ?_)
    refine Nat.lt_of_lt_of_le (hnormal.recoveringCount_lt hr' hrec ?_)
      (hpaused.recoveringCount_le.trans hs)
    rw [update_heap_self]
  · exact hpaused

theorem settled_locPauseAll (hk : ∀ r s, recoveringCount c s < depth → Settled s (k r s))
    {s : Clerk} (hs : recoveringCount c s ≤ depth) : Settled s (locPauseAll c k s) := by
  have hfold : ∀ (l : List Ref) (t : Clerk), (∀ r ∈ l, r ∈ iterLocations c t) →
      recoveringCount c t ≤ depth →
      Settled t (l.foldl (fun s r => pause k r (locCancelCall r s)) t) := by
    intro l
    induction l with
    | nil => exact fun t _ _ => .refl t
    | cons r l ih =>
      intro t hl ht
      have hcancel := (rescheduled_locCancelCall r t).settled
      have hr : r ∈ iterLocations c (locCancelCall r t) := by
        rw [hcancel.frame.iterLocations]
        exact hl r List.mem_cons_self
      have hpause := hcancel.trans
        (settled_pause hk hr (hcancel.recoveringCount_le.trans ht))
      refine hpause.trans (ih _ (fun r' hr' => ?_) (hpause.recoveringCount_le.trans ht))
      rw [hpause.frame.iterLocations]
      exact hl r' (List.mem_cons_of_mem _ hr')
  exact hfold _ s (fun _ hr => hr) hs

theorem settled_checkIsolated (hk : ∀ r s, recoveringCount c s < depth → Settled s (k r s))
    {s : Clerk} (hs : recoveringCount c s ≤ depth) : Settled s (checkIsolated c k s).2 := by
  unfold checkIsolated
  split
  · exact .refl s
  · split
    · exact .refl s
    · have hisolated := (settled_monitored s .isolated).trans
        (rescheduled_isoScheduleCall c.selfQuarantineLength { s with state := .isolated }).settled
      exact hisolated.trans (settled_locPauseAll hk (hisolated.recoveringCount_le.trans hs))

/-- A clerk that is not isolated by the check is left as it is. -/
theorem checkIsolated_false {s : Clerk} (h : (checkIsolated c k s).1 = false) :
    (checkIsolated c k s).2 = s := by
  unfold checkIsolated at h ⊢
  split
  · rfl
  · rename_i hseeing
    rw [if_neg hseeing] at h
    split
    · rfl
    · rename_i hnone
      rw [if_neg hnone] at h
      cases h

/-- What `_need_quarantine` does for a location that is isolated. -/
theorem needQuarantine_isolated {s : Clerk} {r : Ref} (hr : (s.heap r).state = .isolated) :
    ∃ u, (u = (checkIsolated c k s).2 ∨
        (checkIsolated c k s).1 = false ∧ u = locCancelCall r (checkIsolated c k s).2) ∧
      needQuarantine c k r s =
        if u.state ≠ .isolated then locScheduleCall c.hostQuarantineLength r u else u := by
  refine ⟨locStartQuarantine c k r s, ?_, rfl⟩
  unfold locStartQuarantine
  dsimp only
  split
  · exact .inl rfl
  · rename_i hfalse
    -- the location was isolated before, so nothing else is done
    replace hfalse : (checkIsolated c k s).1 = false := by simpa using hfalse
    refine .inr ⟨hfalse, ?_⟩
    rw [checkIsolated_false hfalse]
    have hstill : ((locCancelCall r s).heap r).state = .isolated := by
      rw [(rescheduled_locCancelCall r s).heap, hr]
    simp [startQuarantine, hstill]

theorem settled_needQuarantine (hk : ∀ r s, recoveringCount c s < depth → Settled s (k r s))
    {s : Clerk} {r : Ref} (hr : (s.heap r).state = .isolated) (hs : recoveringCount c s ≤ depth) :
    Settled s (needQuarantine c k r s) := by
  obtain ⟨u, hu, hneed⟩ := needQuarantine_isolated (c := c) (k := k) hr
  have hcheck := settled_checkIsolated hk hs
  have hsettled : Settled s u := by
    obtain rfl | ⟨-, rfl⟩ := hu
    · exact hcheck
    · exact hcheck.trans (rescheduled_locCancelCall _ _).settled
  rw [hneed]
  split
  · exact hsettled.trans (rescheduled_locScheduleCall _ _ _).settled
  · exact hsettled

theorem settled_resume (hk : ∀ r s, recoveringCount c s < depth → Settled s (k r s)) {s : Clerk}
    (r : Ref) (hs : recoveringCount c s ≤ depth) : Settled s (resume c k r s) := by
  have hresumed := settled_paused s r false
  unfold resume
  dsimp only
  generalize s.update r (fun l => { l with paused := false }) = u at hresumed ⊢
  refine hresumed.trans ?_
  split
  · exact settled_bringOutYourDead u r
  · split
    · rename_i hisolated
      exact settled_needQuarantine hk hisolated (hresumed.recoveringCount_le.trans hs)
    · rename_i hrecovering
      exact (rescheduled_locationRecovering hrecovering).settled
    · exact .refl u

theorem settled_locResumeAll (hk : ∀ r s, recoveringCount c s < depth → Settled s (k r s))
    {s : Clerk} (hs : recoveringCount c s ≤ depth) : Settled s (locResumeAll c k s) := by
  unfold locResumeAll
  generalize iterLocations c s = l
  induction l generalizing s with
  | nil => exact .refl s
  | cons r l ih =>
    have hresume := settled_resume hk r hs
    exact hresume.trans (ih (hresume.recoveringCount_le.trans hs))

theorem settled_stateChanged (hk : ∀ r s, recoveringCount c s < depth → Settled s (k r s))
    {s : Clerk} (r : Ref) (hs : recoveringCount c s ≤ depth) :
    Settled s (stateChanged c k r s) := by
  obtain ⟨v, hv, -, -, -, heq⟩ | ⟨u, hu, -, -, heq⟩ | ⟨hsame, -⟩ := stateChanged_cases (c := c) k r s
  · have hsettled := (settled_monitored s .normal).trans hv.settled
    rw [heq]
    exact hsettled.trans (settled_locResumeAll hk (hsettled.recoveringCount_le.trans hs))
  · rw [heq]
    exact hu.settled.trans (settled_monitored u .normal)
  · exact hsame.settled

end Depth

/-- There are fewer recovering locations than the model follows callbacks. -/
theorem settled_locationStateChanged (depth : Nat) {s : Clerk} (r : Ref)
    (hs : recoveringCount c s < depth) : Settled s (locationStateChanged c depth r s) := by
  induction depth generalizing r s with
  | zero => exact absurd hs (Nat.not_lt_zero _)
  | succ depth ih => exact settled_stateChanged (fun _ _ h => ih _ h) r (Nat.le_of_lt_succ hs)

theorem recoveringCount_le (s : Clerk) : recoveringCount c s ≤ s.locations.keys.length := by
  refine List.countP_le_length.trans ?_
  unfold iterLocations Dict.values Dict.items
  rw [List.length_map]
  exact (List.length_filterMap_le _ _).trans (le_of_eq (c.order.length_arrange _))

/-! ## Events -/

/-- A location that gets a state. -/
def Clerk.locate (s : Clerk) (r : Ref) (st : LocationState) : Clerk :=
  s.update r fun l => { l with state := st }

theorem locate_state (s : Clerk) (r r' : Ref) (st : LocationState) :
    ((s.locate r st).heap r').state = if r' = r then st else (s.heap r').state :=
  update_state s r r' st

/-- A location that was left recovering may be set so again. -/
theorem Settled.locate {s t : Clerk} (h : Settled s t) {r : Ref}
    (hr : (s.heap r).state = .recovering) : Settled s (t.locate r .recovering) := by
  refine ⟨h.frame.update rfl rfl, fun r' => ?_, fun r' => ?_, h.history, h.running⟩
  · rw [locate_state]
    split
    · rename_i hr'
      rw [hr', hr]
      exact .inl rfl
    · exact h.located r'
  · refine (h.flagged r').trans ?_
    by_cases hr' : r' = r
    · subst hr'
      rw [Clerk.locate, update_heap_self]
    · rw [Clerk.locate, update_heap_ne _ _ hr']

/-- `_check_quarantine` isolates the location. -/
def Isolates (c : Config) (loc : Location) : Prop :=
  loc.countPatients c.order .dying = 0 ∧ loc.countPatients c.order .dead > 0 ∧
    loc.state ≠ .isolated

section Events
variable {k : Ref → Clerk → Clerk} {depth : Nat}

theorem checkQuarantine_eq {s : Clerk} {r : Ref} (h : ¬ Isolates c (s.heap r)) :
    checkQuarantine c k r s = s := by
  unfold checkQuarantine
  split
  · rfl
  · rename_i hdying
    split
    · rfl
    · rename_i hdead
      rw [if_neg fun hstate => h ⟨Nat.eq_zero_of_not_pos hdying, not_not.mp hdead, hstate⟩]

theorem settled_checkQuarantine (hk : ∀ r s, recoveringCount c s < depth → Settled s (k r s))
    {s : Clerk} {r : Ref} (hs : s.locations.keys.length < depth) (h : Isolates c (s.heap r)) :
    Settled (s.locate r .isolated) (checkQuarantine c k r s) := by
  obtain ⟨hdying, hdead, hstate⟩ := h
  have hset : Settled (s.locate r .isolated) (setState k r .isolated s) :=
    hk r (s.locate r .isolated) (Nat.lt_of_le_of_lt (recoveringCount_le _) hs)
  unfold checkQuarantine
  rw [if_neg (by simp [hdying]), if_neg (by simp [hdead]), if_pos hstate]
  dsimp only
  split
  · exact hset
  · refine hset.trans (settled_needQuarantine hk ?_ ?_)
    · obtain hsame | ⟨hrec, -⟩ := hset.located r
      · rw [hsame, locate_state, if_pos rfl]
      · rw [locate_state, if_pos rfl] at hrec
        cases hrec
    · refine (recoveringCount_le _).trans (Nat.le_of_lt ?_)
      rw [hset.frame.locations]
      exact hs

/-- The location when a patient is not dead any more. -/
def Location.forget (key : String) (loc : Location) : Location :=
  { loc with dead := loc.dead.erase key }

/-- Nobody is dead or dying. -/
def Recovered (c : Config) (loc : Location) : Prop :=
  loc.countPatients c.order .dying = 0 ∧ loc.countPatients c.order .dead = 0

instance (loc : Location) : Decidable (Recovered c loc) := inferInstanceAs (Decidable (_ ∧ _))

theorem patientResurrected_eq (k : Ref → Clerk → Clerk) (s : Clerk) (r : Ref) (key : String) :
    patientResurrected c k r key s =
      let u := s.update r (.forget key)
      if !c.enableQuarantine then u
      else if (u.heap r).state = .recovering then
        if Recovered c (u.heap r) then k r (u.locate r .normal) else u
      else if Recovered c (u.heap r) then k r (u.locate r .normal)
      else
        let v := k r (u.locate r .recovering)
        if (v.heap r).paused then v else locationRecovering c k r v := rfl

/-- What becomes of a location that is set recovering, whatever the callbacks make of it. -/
theorem settled_locationRecovering
    (hk : ∀ r s, recoveringCount c s < depth → Settled s (k r s)) {s t : Clerk} {r : Ref}
    (hs : s.locations.keys.length < depth) (hr : (s.heap r).state = .recovering)
    (h : Settled s t) : Settled s (locationRecovering c k r t) := by
  have hstart : Settled s (startRecovery c k r t).2 := by
    unfold startRecovery
    split
    · dsimp only
      split
      · refine (h.locate hr).trans (hk r (t.locate r .recovering) ?_)
        refine Nat.lt_of_le_of_lt (recoveringCount_le _) ?_
        rw [(h.locate hr).frame.locations]
        exact hs
      · exact h
    · exact h
  exact hstart.trans (rescheduled_locScheduleCall _ _ _).settled

/-- The state of a location in which somebody was resurrected. -/
def Location.resurrected (c : Config) (loc : Location) : LocationState :=
  if c.enableQuarantine = false then loc.state
  else if Recovered c loc then .normal else .recovering

theorem settled_patientResurrected (hk : ∀ r s, recoveringCount c s < depth → Settled s (k r s))
    {s : Clerk} (r : Ref) (key : String) (hs : s.locations.keys.length < depth) :
    Settled ((s.update r (.forget key)).locate r ((s.heap r).resurrected c))
      (patientResurrected c k r key s) := by
  have hcall : ∀ st, Settled ((s.update r (.forget key)).locate r st)
      (k r ((s.update r (.forget key)).locate r st)) := by
    intro st
    exact hk r _ (Nat.lt_of_le_of_lt (recoveringCount_le _) hs)
  have hsame : ∀ st, (s.heap r).state = st →
      Settled ((s.update r (.forget key)).locate r st) (s.update r (.forget key)) := by
    intro st hst
    have hu : (s.update r (.forget key)).locate r st = s.update r (.forget key) := by
      subst hst
      unfold Clerk.locate Clerk.update
      dsimp only
      rw [Function.update_self, Function.update_idem]
      rfl
    rw [hu]
    exact .refl _
  rw [patientResurrected_eq]
  have hheap : (s.update r (.forget key)).heap r = (s.heap r).forget key := update_heap_self _ _ _
  have hrecovered : Recovered c ((s.heap r).forget key) ↔ Recovered c (s.heap r) := Iff.rfl
  dsimp only
  rw [hheap]
  unfold Location.resurrected
  cases hon : c.enableQuarantine with
  | false => exact hsame _ rfl
  | true =>
    simp only [Bool.not_true, reduceCtorEq, Bool.false_eq_true, if_false, hrecovered]
    by_cases hdone : Recovered c (s.heap r)
    · simp only [if_pos hdone, ite_self]
      exact hcall .normal
    · simp only [if_neg hdone]
      split
      · rename_i hrecovering
        exact hsame .recovering hrecovering
      · split
        · exact hcall .recovering
        · refine settled_locationRecovering hk hs ?_ (hcall .recovering)
          rw [locate_state, if_pos rfl]

theorem settled_quarantineLifted (hk : ∀ r s, recoveringCount c s < depth → Settled s (k r s))
    {s : Clerk} (r : Ref) (hs : s.locations.keys.length < depth) :
    Settled (s.locate r .normal) (quarantineLifted c k r s) := by
  have hcall : Settled (s.locate r .normal) (setState k r .normal s) :=
    hk r (s.locate r .normal) (Nat.lt_of_le_of_lt (recoveringCount_le _) hs)
  exact hcall.trans (settled_bringOutYourDead _ r)

theorem settled_onDisconnected (hk : ∀ r s, recoveringCount c s < depth → Settled s (k r s))
    {s : Clerk} (hs : s.locations.keys.length < depth) : Settled s (onDisconnected c k s) := by
  unfold onDisconnected
  split
  · have hcut := (rescheduled_isoCancelCall s).settled.trans
      (settled_monitored (isoCancelCall s) .disconnected)
    refine hcut.trans (settled_locPauseAll hk ?_)
    refine (hcut.recoveringCount_le).trans ((recoveringCount_le _).trans (Nat.le_of_lt hs))
  · exact .refl s

theorem settled_onReconnected (hk : ∀ r s, recoveringCount c s < depth → Settled s (k r s))
    {s : Clerk} (hs : s.locations.keys.length < depth) : Settled s (onReconnected c k s) := by
  have hcount : recoveringCount c s ≤ depth := (recoveringCount_le _).trans (Nat.le_of_lt hs)
  unfold onReconnected
  split
  · have hnormal := settled_monitored s .normal
    have hresumed := hnormal.trans
      (settled_locResumeAll hk (hnormal.recoveringCount_le.trans hcount))
    exact hresumed.trans (settled_checkIsolated hk (hresumed.recoveringCount_le.trans hcount))
  · exact .refl s

theorem settled_isoLiftQuarantine (hk : ∀ r s, recoveringCount c s < depth → Settled s (k r s))
    {s : Clerk} (hs : s.locations.keys.length < depth) : Settled s (isoLiftQuarantine c k s) := by
  have hrecovering := settled_monitored s .recovering
  refine hrecovering.trans (settled_locResumeAll hk (hrecovering.recoveringCount_le.trans ?_))
  exact (recoveringCount_le _).trans (Nat.le_of_lt hs)

end Events

instance (loc : Location) : Decidable (Isolates c loc) :=
  inferInstanceAs (Decidable (_ ∧ _ ∧ _))

/-- What the death of a patient makes of its location. -/
def Clerk.afterDeath (c : Config) (r : Ref) (s : Clerk) : Clerk :=
  if c.enableQuarantine = true ∧
      ¬ ((s.heap r).state = .normal ∧ (s.heap r).countPatients c.order .alive > 0) ∧
      Isolates c (s.heap r) then
    s.locate r .isolated
  else s

/-- What the removal of a patient makes of its location. -/
def Clerk.afterRemoval (c : Config) (r : Ref) (p : Patient) (s : Clerk) : Clerk :=
  if c.enableQuarantine = true ∧ (s.heap r).state = .normal ∧ p.state ≠ .dead ∧
      Isolates c (s.heap r) then
    s.locate r .isolated
  else s

/-- What an event changes itself, before anything is called back. -/
def direct (c : Config) (s : Clerk) : Event → Clerk
  | .added key location period =>
    onPatientAdded key ⟨location, period, .alive⟩ { s with history := s.history ++ [.added key] }
  | .removed key =>
    match s.patient key with
    | some (r, p) => Clerk.afterRemoval c r p
        (Clerk.update { s with patients := s.patients.erase key } r (.without key))
    | none => s
  | .dying key | .relapsed key =>
    match s.patient key with
    | some (r, p) => s.update r (.mark key p .dying)
    | none => s
  | .died key =>
    match s.patient key with
    | some (r, p) => Clerk.afterDeath c r (s.update r (.mark key p .dead))
    | none => s
  | .resurrected key =>
    match s.patient key with
    | some (r, p) =>
      let u := s.update r (.mark key p .alive)
      (Clerk.update { u with history := s.history ++ [.resurrected key] } r (.forget key)).locate r
        ((u.heap r).resurrected c)
    | none => s
  | .disconnected | .reconnected => s
  | .fired id =>
    match s.calls.lookup id with
    | some (_, .liftLocation r) => Clerk.locate { s with calls := s.calls.erase id } r .normal
    | _ => { s with calls := s.calls.erase id }

/-- A patient dies. -/
theorem settled_patientDied {k : Ref → Clerk → Clerk} {depth : Nat}
    (hk : ∀ r s, recoveringCount c s < depth → Settled s (k r s)) {s : Clerk} {r : Ref}
    (key : String) (p : Patient) (hs : s.locations.keys.length < depth) :
    Settled (s.afterDeath c r) (patientDied c k r key p s) := by
  unfold patientDied Clerk.afterDeath
  cases hon : c.enableQuarantine with
  | false => simpa using settled_notifyDeath s r key p
  | true =>
    simp only [Bool.not_true, Bool.false_eq_true, if_false, true_and]
    by_cases halive : (s.heap r).state = .normal ∧ (s.heap r).countPatients c.order .alive > 0
    · rw [if_pos halive, if_neg fun h => h.1 halive]
      exact settled_notifyDeath s r key p
    · rw [if_neg halive]
      by_cases hisolates : Isolates c (s.heap r)
      · rw [if_pos ⟨halive, hisolates⟩]
        exact settled_checkQuarantine hk hs hisolates
      · rw [if_neg fun h => hisolates h.2, checkQuarantine_eq hisolates]
        exact .refl s

/-- A patient is removed, and its location when it was the last one. -/
theorem settled_onPatientRemoved {k : Ref → Clerk → Clerk} {depth : Nat}
    (hk : ∀ r s, recoveringCount c s < depth → Settled s (k r s)) {s : Clerk} {r : Ref}
    {key : String} {p : Patient} (hplaced : Placed s) (hp : s.patient key = some (r, p))
    (hs : s.locations.keys.length < depth) :
    ∃ v, Settled (Clerk.afterRemoval c r p
        (Clerk.update { s with patients := s.patients.erase key } r (.without key))) v ∧
      onPatientRemoved c k key p s =
        if (v.heap r).patients.keys.length = 0 then
          { v with locations := v.locations.erase (v.heap r).name }
        else v := by
  obtain ⟨-, hpat⟩ := patient_eq_some.mp hp
  obtain ⟨-, hloc, hpl⟩ := hplaced.resident r key p hpat
  refine ⟨(removePatient c k r key p { s with patients := s.patients.erase key }).2, ?_, ?_⟩
  · unfold removePatient Clerk.afterRemoval
    have hu : (Clerk.update { s with patients := s.patients.erase key } r fun l =>
        { l with patients := l.patients.erase key, dead := l.dead.erase key }) =
        Clerk.update { s with patients := s.patients.erase key } r (.without key) := rfl
    dsimp only
    rw [hu]
    by_cases hcheck : c.enableQuarantine = true ∧
        ((Clerk.update { s with patients := s.patients.erase key } r
          (.without key)).heap r).state = .normal ∧ p.state ≠ .dead
    · rw [if_pos hcheck]
      by_cases hisolates : Isolates c ((Clerk.update { s with patients := s.patients.erase key } r
          (.without key)).heap r)
      · rw [if_pos ⟨hcheck.1, hcheck.2.1, hcheck.2.2, hisolates⟩]
        exact settled_checkQuarantine hk hs hisolates
      · rw [if_neg fun h => hisolates h.2.2.2, checkQuarantine_eq hisolates]
        exact .refl _
    · rw [if_neg hcheck, if_neg fun h => hcheck ⟨h.1, h.2.1, h.2.2.1⟩]
      exact .refl _
  · unfold onPatientRemoved
    dsimp only
    rw [hpl, hloc]
    simp [removePatient]

/-- What an event leads to: its own changes, and after them only what settles. A location
    that is left without patients goes then. -/
theorem step_settled {s t : Clerk} {e : Event} (hplaced : Placed s) (hstep : step c s e = some t) :
    ∃ v, Settled (direct c s e) v ∧
      (t = v ∨ ∃ key r p, e = .removed key ∧ s.patient key = some (r, p) ∧
        (v.heap r).patients.keys.length = 0 ∧
        t = { v with locations := v.locations.erase (v.heap r).name }) := by
  have hk : ∀ r u, recoveringCount c u < s.locations.keys.length + 1 →
      Settled u (locationStateChanged c (s.locations.keys.length + 1) r u) :=
    fun r _ hu => settled_locationStateChanged _ r hu
  have hs : s.locations.keys.length < s.locations.keys.length + 1 := Nat.lt_succ_self _
  cases e with
  | added key location period =>
    dsimp only [step] at hstep
    split at hstep
    · cases hstep
    · obtain rfl := Option.some.inj hstep
      exact ⟨_, .refl _, .inl rfl⟩
  | removed key =>
    obtain ⟨⟨r, p⟩, hp, hstep⟩ := Option.bind_eq_some_iff.mp hstep
    obtain rfl := Option.some.inj hstep
    obtain ⟨v, hv, heq⟩ := settled_onPatientRemoved hk hplaced hp hs
    dsimp only [direct]
    rw [hp, heq]
    refine ⟨v, hv, ?_⟩
    split
    · rename_i hempty
      exact .inr ⟨key, r, p, rfl, hp, hempty, rfl⟩
    · exact .inl rfl
  | dying key =>
    obtain ⟨⟨r, p⟩, hp, hstep⟩ := Option.bind_eq_some_iff.mp hstep
    dsimp only [direct] at hstep ⊢
    rw [hp]
    split at hstep
    · obtain rfl := Option.some.inj hstep
      exact ⟨_, .refl _, .inl rfl⟩
    · cases hstep
  | died key =>
    obtain ⟨⟨r, p⟩, hp, hstep⟩ := Option.bind_eq_some_iff.mp hstep
    dsimp only [direct] at hstep ⊢
    rw [hp]
    split at hstep
    · obtain rfl := Option.some.inj hstep
      exact ⟨_, settled_patientDied hk key _ hs, .inl rfl⟩
    · cases hstep
  | resurrected key =>
    obtain ⟨⟨r, p⟩, hp, hstep⟩ := Option.bind_eq_some_iff.mp hstep
    dsimp only [direct] at hstep ⊢
    rw [hp]
    split at hstep
    · obtain rfl := Option.some.inj hstep
      exact ⟨_, settled_patientResurrected hk r key hs, .inl rfl⟩
    · cases hstep
  | relapsed key =>
    obtain ⟨⟨r, p⟩, hp, hstep⟩ := Option.bind_eq_some_iff.mp hstep
    dsimp only [direct] at hstep ⊢
    rw [hp]
    split at hstep
    · obtain rfl := Option.some.inj hstep
      exact ⟨_, .refl _, .inl rfl⟩
    · cases hstep
  | disconnected =>
    obtain rfl := Option.some.inj hstep
    exact ⟨_, settled_onDisconnected hk hs, .inl rfl⟩
  | reconnected =>
    obtain rfl := Option.some.inj hstep
    exact ⟨_, settled_onReconnected hk hs, .inl rfl⟩
  | fired id =>
    obtain ⟨⟨delay, call⟩, hcall, hstep⟩ := Option.bind_eq_some_iff.mp hstep
    dsimp only [direct]
    rw [hcall]
    cases call with
    | liftLocation r =>
      obtain rfl := Option.some.inj hstep
      exact ⟨_, settled_quarantineLifted hk r hs, .inl rfl⟩
    | liftIsolation =>
      obtain rfl := Option.some.inj hstep
      exact ⟨_, settled_isoLiftQuarantine hk hs, .inl rfl⟩

/-- The heap, what was told and how deep it went are left by what settles. -/
theorem step_direct {s t : Clerk} {e : Event} (hplaced : Placed s) (hstep : step c s e = some t) :
    ∃ v, Settled (direct c s e) v ∧ t.heap = v.heap ∧ t.history = v.history ∧
      t.exhausted = v.exhausted := by
  obtain ⟨v, hv, rfl | ⟨_, _, _, _, _, _, rfl⟩⟩ := step_settled hplaced hstep
  · exact ⟨t, hv, rfl, rfl, rfl⟩
  · exact ⟨v, hv, rfl, rfl, rfl⟩

theorem direct_exhausted (s : Clerk) (e : Event) : (direct c s e).exhausted = s.exhausted := by
  have hdeath : ∀ r (u : Clerk), (u.afterDeath c r).exhausted = u.exhausted := by
    intro r u
    unfold Clerk.afterDeath
    split <;> rfl
  have hremoval : ∀ r p (u : Clerk), (u.afterRemoval c r p).exhausted = u.exhausted := by
    intro r p u
    unfold Clerk.afterRemoval
    split <;> rfl
  cases e with
  | added key location period =>
    dsimp only [direct, onPatientAdded]
    split <;> rfl
  | removed key =>
    dsimp only [direct]
    split
    · exact hremoval _ _ _
    · rfl
  | died key =>
    dsimp only [direct]
    split
    · exact hdeath _ _
    · rfl
  | dying key => dsimp only [direct]; split <;> rfl
  | relapsed key => dsimp only [direct]; split <;> rfl
  | resurrected key => dsimp only [direct]; split <;> rfl
  | disconnected => rfl
  | reconnected => rfl
  | fired id => dsimp only [direct]; split <;> rfl

/-- The callbacks never go deeper than the model follows them. -/
theorem never_exhausted {es : List Event} {s : Clerk} (h : Run (Defined (step c)) .new es s) :
    s.exhausted = false := by
  have hkeep : ∀ s e t, (Placed s ∧ Reported s) ∧ s.exhausted = false → Defined (step c) s e t →
      (Placed t ∧ Reported t) ∧ t.exhausted = false := by
    intro s e t hs hstep
    obtain ⟨v, hv, -, -, hrun⟩ := step_direct hs.1.1 hstep
    refine ⟨step_reported hs.1 hstep, ?_⟩
    rw [hrun]
    exact hv.running ((direct_exhausted s e).trans hs.2)
  exact (Run.preserves hkeep h ⟨new_reported, rfl⟩).2

/-- An agent is reported dead, the monitor is disconnected and connected again. -/
theorem never_exhausted_reconnected :
    ∃ s, ([.added "a" "host" 10, .died "a", .disconnected, .reconnected] : List Event).foldlM
      (step localMonitor) .new = some s ∧ s.exhausted = false := by
  obtain ⟨s, hs⟩ := Option.isSome_iff_exists.mp (show (([.added "a" "host" 10, .died "a",
    .disconnected, .reconnected] : List Event).foldlM (step localMonitor) .new).isSome by
      decide +kernel)
  exact ⟨s, hs, never_exhausted (run_defined hs)⟩

end Feat.Agents.Monitor
