import Feat.Agents.ClerkMinded

/- The events of a clerk with quarantine, and the deaths that are withheld.

   `Remembering` is the condition on one event under which whatever is withheld after it will
   be brought out (`Minded`), one lemma for each event. -/
namespace Feat.Agents.Monitor
open Hash Transition

variable {c : Config} {s t : Clerk} {r : Ref}

/-- The location after the coroner was called for a patient of it. -/
def Location.flag (key : String) (loc : Location) : Location :=
  { loc with dead := insert key loc.dead }

section Conditions
variable (c : Config)

/-- A patient may die: where others are alive and the location is not in quarantine, nothing
    is withheld any more when nobody is dying. -/
def SafelyDying (s : Clerk) (r : Ref) (key : String) : Prop :=
  if (s.heap r).state = .normal ∧ (s.heap r).countPatients c.order .alive > 0 then
    ¬ Awaiting c (if (s.heap r).paused then s.heap r else (s.heap r).flag key)
  else SafelyQuarantined c s r

instance (s : Clerk) (r : Ref) (key : String) : Decidable (SafelyDying c s r key) :=
  inferInstanceAs (Decidable
    (if (s.heap r).state = .normal ∧ (s.heap r).countPatients c.order .alive > 0 then
      ¬ Awaiting c (if (s.heap r).paused then s.heap r else (s.heap r).flag key)
    else SafelyQuarantined c s r))

/-- A patient may be removed. -/
def SafelyLeaving (s : Clerk) (r : Ref) (p : Patient) : Prop :=
  (s.heap r).state = .isolated ∨ (s.heap r).state = .normal ∧ p.state ≠ .dead →
    SafelyQuarantined c s r

instance (s : Clerk) (r : Ref) (p : Patient) : Decidable (SafelyLeaving c s r p) :=
  inferInstanceAs (Decidable (_ → _))

/-- A call may fire: a location that it brings the clerk out of isolation by is resumed
    safely, and otherwise it is not paused while it withholds a death. -/
def SafelyLifted (s : Clerk) : Call → Prop
  | .liftLocation r =>
    if s.state = .isolated ∧ (s.heap r).name ≠ c.location then
      (∀ l ∈ iterLocations c s, ((s.locate r .normal).heap l).state ≠ .isolated) ∨
        SafelyResumed c (s.locate r .normal)
    else (s.heap r).paused = true → ¬ Awaiting c (s.heap r)
  | .liftIsolation => True

instance (s : Clerk) : ∀ call, Decidable (SafelyLifted c s call)
  | .liftLocation r =>
    inferInstanceAs (Decidable (if s.state = .isolated ∧ (s.heap r).name ≠ c.location then
      (∀ l ∈ iterLocations c s, ((s.locate r .normal).heap l).state ≠ .isolated) ∨
        SafelyResumed c (s.locate r .normal)
      else (s.heap r).paused = true → ¬ Awaiting c (s.heap r)))
  | .liftIsolation => inferInstanceAs (Decidable True)

/-- The condition on one event, for a clerk with quarantine. -/
def Remembering (s : Clerk) : Event → Prop
  | .died key => c.enableQuarantine = true → ∀ q ∈ s.patient key,
    SafelyDying c (s.update q.1 (.mark key q.2 .dead)) q.1 key
  | .removed key => c.enableQuarantine = true → ∀ q ∈ s.patient key,
    SafelyLeaving c (Clerk.update { s with patients := s.patients.erase key } q.1 (.without key))
      q.1 q.2
  | .disconnected => c.enableQuarantine = true → s.state ≠ .disconnected →
    ∀ r ∈ iterLocations c s, Awaiting c (s.heap r) → (s.heap r).state ≠ .recovering
  | .reconnected => c.enableQuarantine = true → s.state = .disconnected → SafelyResumed c s
  | .fired id => c.enableQuarantine = true → ∀ q ∈ s.calls.lookup id, SafelyLifted c s q.2
  | _ => True

instance (s : Clerk) : ∀ e, Decidable (Remembering c s e)
  | .died key => inferInstanceAs (Decidable (_ → ∀ q ∈ s.patient key,
      SafelyDying c (s.update q.1 (.mark key q.2 .dead)) q.1 key))
  | .removed key => inferInstanceAs (Decidable (_ → ∀ q ∈ s.patient key,
      SafelyLeaving c (Clerk.update { s with patients := s.patients.erase key } q.1 (.without key))
        q.1 q.2))
  | .disconnected => inferInstanceAs (Decidable (_ → _ → ∀ r ∈ iterLocations c s, _ → _))
  | .reconnected => inferInstanceAs (Decidable (_ → _ → _))
  | .fired id => inferInstanceAs (Decidable (_ → ∀ q ∈ s.calls.lookup id, SafelyLifted c s q.2))
  | .added _ _ _ | .dying _ | .resurrected _ | .relapsed _ => inferInstanceAs (Decidable True)

end Conditions

/-! ## A location that is not isolated any more -/

/-- What the clerk does when a location is normal or recovering: leave isolation and resume
    all, or nothing but cancel the call and end its own recovery. -/
theorem stateChanged_out (k : Ref → Clerk → Clerk) (h : (s.heap r).state ≠ .isolated) :
    (∃ v, Rescheduled { s with state := .normal } v ∧ s.state = .isolated ∧
      (s.heap r).name ≠ c.location ∧ stateChanged c k r s = locResumeAll c k v) ∨
    (∃ v, (v = s ∨ v = locCancelCall r s) ∧ (stateChanged c k r s = v ∨
      s.state = .recovering ∧ stateChanged c k r s = { v with state := .normal }) ∧
        (s.state = .isolated → (s.heap r).name = c.location)) := by
  have hcancelled : Rescheduled s (if (s.heap r).state = .normal then locCancelCall r s else s) ∧
      ((if (s.heap r).state = .normal then locCancelCall r s else s) = s ∨
        (if (s.heap r).state = .normal then locCancelCall r s else s) = locCancelCall r s) := by
    split
    · exact ⟨rescheduled_locCancelCall r s, .inr rfl⟩
    · exact ⟨.refl s, .inl rfl⟩
  unfold stateChanged
  dsimp only
  generalize (if (s.heap r).state = .normal then locCancelCall r s else s) = u at hcancelled ⊢
  obtain ⟨hst, hu⟩ := hcancelled
  have hstate := hst.steady.monitored
  have hheap := hst.heap
  split
  · rename_i hs
    split
    · rename_i hout
      rw [hheap] at hout
      exact .inl ⟨_, (hst.monitored .normal).trans (rescheduled_isoCancelCall _), hstate ▸ hs,
        hout.2, rfl⟩
    · rename_i hin
      rw [hheap] at hin
      refine .inr ⟨u, hu, .inl rfl, fun _ => ?_⟩
      by_contra hforeign
      exact hin ⟨h, hforeign⟩
  · rename_i hs
    refine .inr ⟨u, hu, ?_, fun hiso => ?_⟩
    · split
      · exact .inr ⟨hstate ▸ hs, rfl⟩
      · exact .inl rfl
    · rw [← hstate, hs] at hiso
      cases hiso
  · rename_i hs _
    exact .inr ⟨u, hu, .inl rfl, fun hiso => absurd (hstate.trans hiso) hs⟩

/-- Who is seen alive is not changed by what settles. -/
theorem Settled.lively (h : Settled s t) (hl : ∃ l ∈ iterLocations c s, Lively c (s.heap l)) :
    ∃ l ∈ iterLocations c t, Lively c (t.heap l) := by
  obtain ⟨l, hl, hnot, hname, halive⟩ := hl
  rw [h.frame.iterLocations]
  refine ⟨l, hl, fun he => hnot ((h.isolated_iff l).mp he), ?_, ?_⟩
  · rw [h.frame.name]
    exact hname
  · unfold Location.countPatients Location.iterPatients at halive ⊢
    rw [h.frame.residents]
    exact halive

/-- Resuming cannot isolate a clerk that sees somebody alive, or no isolated location. -/
theorem secure_of_state {v : Clerk} (hs : s.state = .normal) (hst : Settled v s)
    (h : (∃ l ∈ iterLocations c v, Lively c (v.heap l)) ∨
      ∀ l ∈ iterLocations c v, (v.heap l).state ≠ .isolated) : Secure c s := by
  refine .inr ⟨hs, .inr (h.imp hst.lively fun hnone l hl he => ?_)⟩
  rw [hst.frame.iterLocations] at hl
  exact hnone l hl ((hst.isolated_iff l).mp he)

section Callbacks
variable {depth : Nat}

/-- The other locations keep what brings out what they withhold. -/
theorem mindedAt_stateChanged (h : (s.heap r).state ≠ .isolated) (hindexed : Indexed s)
    (hsole : Sole c s r) (hnodup : (iterLocations c s).Nodup) (hs : recoveringCount c s ≤ depth)
    (hsafe : s.state = .isolated → (s.heap r).name ≠ c.location →
      ((∃ l ∈ iterLocations c s, Lively c (s.heap l)) ∨
        ∀ l ∈ iterLocations c s, (s.heap l).state ≠ .isolated) ∨
        ∀ l ∈ iterLocations c s, Awaiting c (s.heap l) → Foremost c s l)
    {r' : Ref} (hr' : r' ∈ iterLocations c s) (hne : r' ≠ r) (hminded : MindedAt c s r') :
    MindedAt c (stateChanged c (locationStateChanged c depth) r s) r' := by
  obtain ⟨v, hv, hiso, hname, heq⟩ | ⟨v, hv, heq, -⟩ :=
    stateChanged_out (c := c) (locationStateChanged c depth) h
  · have hsettled := (settled_monitored s .normal).trans hv.settled
    have hstate : v.state = .normal := hv.steady.monitored
    have hheap : v.heap = s.heap := hv.heap
    rw [heq]
    refine mindedAt_locResumeAll ?_ (hsettled.recoveringCount_le.trans hs) ?_ ?_ ?_
    · rw [hsettled.frame.iterLocations]
      exact hnodup
    · rw [hstate]
      exact fun he => by cases he
    · rw [hheap]
      exact fun ha => (hminded ha).1
    · refine (hsafe hiso hname).imp (secure_of_state hstate hsettled) fun hfirst ha => ?_
      have hlead : Leading c s r' := ⟨hnodup, hfirst r' hr' (hsettled.awaiting ha)⟩
      exact (hsettled.leading hlead).foremost
  · have hlifting : s.Lifting r' → v.Lifting r' := by
      intro hl
      obtain rfl | rfl := hv
      · exact hl
      · exact (lifting_locCancelCall_iff hindexed).mpr
          ⟨hl, fun hsame => hsole r' hr' hsame hne hl⟩
    have hst : Rescheduled s v := by
      obtain rfl | rfl := hv
      · exact .refl v
      · exact rescheduled_locCancelCall r s
    obtain heq | ⟨-, heq⟩ := heq
    · rw [heq]
      exact hminded.rescheduled hst fun _ => hlifting
    · rw [heq]
      refine mindedAt_of_state (fun he => by cases he) ?_
      show Awaiting c (v.heap r') → (v.heap r').state ≠ .normal
      rw [hst.heap]
      exact fun ha => (hminded ha).1

/-- The location itself keeps its state where resuming cannot isolate the clerk. -/
theorem stateChanged_secure (h : (s.heap r).state ≠ .isolated)
    (hsafe : s.state = .isolated → (s.heap r).name ≠ c.location →
      (∃ l ∈ iterLocations c s, Lively c (s.heap l)) ∨
        ∀ l ∈ iterLocations c s, (s.heap l).state ≠ .isolated)
    (k : Ref → Clerk → Clerk) :
    ((stateChanged c k r s).heap r).state = (s.heap r).state ∧
      (r ∈ iterLocations c s ∨ (s.heap r).paused = false →
        ((stateChanged c k r s).heap r).paused = false ∨
          (stateChanged c k r s).heap r = s.heap r ∧
            (s.state = .isolated → (s.heap r).name = c.location)) := by
  obtain ⟨v, hv, hiso, hname, heq⟩ | ⟨v, hv, heq, hown⟩ := stateChanged_out (c := c) k h
  · have hsettled := (settled_monitored s .normal).trans hv.settled
    have hsecure : Secure c v := secure_of_state hv.steady.monitored hsettled (hsafe hiso hname)
    rw [heq]
    refine ⟨((steady_locResumeAll hsecure).located r).trans (by rw [hv.heap]), fun hr => .inl ?_⟩
    refine secure_locResumeAll_paused hsecure r k ?_
    rw [hsettled.frame.iterLocations, hv.heap]
    exact hr
  · have hheap : (stateChanged c k r s).heap = s.heap := by
      have hst : v.heap = s.heap := by
        obtain rfl | rfl := hv
        · rfl
        · exact (rescheduled_locCancelCall r s).heap
      obtain heq | ⟨-, heq⟩ := heq
      · rw [heq, hst]
      · rw [heq]
        exact hst
    rw [hheap]
    exact ⟨rfl, fun _ => .inr ⟨rfl, hown⟩⟩

/-! ## Events of a clerk with quarantine -/

theorem heap_notifyDeath (r : Ref) (key : String) (p : Patient) (s : Clerk) :
    (notifyDeath r key p s).heap r =
      if (s.heap r).paused then s.heap r else (s.heap r).flag key := by
  unfold notifyDeath
  split
  · rfl
  · split
    · rename_i hin
      unfold Location.flag
      rw [Finset.insert_eq_of_mem hin]
    · show (s.update r (fun l => { l with dead := insert key l.dead })).heap r = _
      rw [update_heap_self]
      rfl

theorem minded_patientDied (hon : c.enableQuarantine = true) (hin : r ∈ iterLocations c s)
    (hnodup : (iterLocations c s).Nodup) (hs : s.locations.keys.length ≤ depth)
    (hothers : ∀ r' ∈ iterLocations c s, r' ≠ r → MindedAt c s r') {key : String} (p : Patient)
    (hsafe : SafelyDying c s r key) :
    Minded c (patientDied c (locationStateChanged c (depth + 1)) r key p s) := by
  unfold patientDied
  rw [if_neg (by simp [hon])]
  unfold SafelyDying at hsafe
  by_cases halive : (s.heap r).state = .normal ∧ (s.heap r).countPatients c.order .alive > 0
  · rw [if_pos halive] at hsafe ⊢
    have hframe := (settled_notifyDeath s r key p).frame
    intro r' hr'
    rw [hframe.iterLocations] at hr'
    by_cases he : r' = r
    · subst he
      refine mindedAt_of_not ?_
      rw [heap_notifyDeath]
      exact hsafe
    · have hsame : (notifyDeath r key p s).heap r' = s.heap r' ∧
          (notifyDeath r key p s).state = s.state ∧ (notifyDeath r key p s).calls = s.calls := by
        unfold notifyDeath
        split
        · exact ⟨rfl, rfl, rfl⟩
        · split
          · exact ⟨rfl, rfl, rfl⟩
          · exact ⟨update_heap_ne s (fun l => { l with dead := insert key l.dead }) he, rfl, rfl⟩
      obtain ⟨hheap, hstate, hcalls⟩ := hsame
      refine (hothers r' hr' he).mono (by rw [hheap]; exact id) (by rw [hheap])
        (by rw [hheap]; exact id) (fun hst => hstate.symm.trans hst) ?_
      rintro _ ⟨id, delay, hid⟩
      refine ⟨id, delay, ?_⟩
      rw [hcalls]
      exact hid
  · rw [if_neg halive] at hsafe ⊢
    exact minded_checkQuarantine hin hnodup hs hothers hsafe

theorem minded_removePatient (hon : c.enableQuarantine = true) {key : String} {p : Patient}
    (hin : r ∈ iterLocations c s) (hnodup : (iterLocations c s).Nodup)
    (hs : s.locations.keys.length ≤ depth)
    (hothers : ∀ r' ∈ iterLocations c s, r' ≠ r → MindedAt c s r')
    (hsafe : SafelyLeaving c (s.update r (.without key)) r p)
    (hdead : p.state = .dead → (s.heap r).state = .normal →
      ¬ Awaiting c ((s.heap r).without key)) :
    Minded c (removePatient c (locationStateChanged c (depth + 1)) r key p s).2 := by
  have hself : (s.update r (.without key)).heap r = (s.heap r).without key := update_heap_self _ _ _
  have hrest : ∀ r' ∈ iterLocations c (s.update r (.without key)), r' ≠ r →
      MindedAt c (s.update r (.without key)) r' := by
    intro r' hr' he
    have hheap : (s.update r (.without key)).heap r' = s.heap r' := update_heap_ne _ _ he
    exact (hothers r' hr' he).mono (by rw [hheap]; exact id) (by rw [hheap])
      (by rw [hheap]; exact id) id fun _ hl => hl
  have hinu : r ∈ iterLocations c (s.update r (.without key)) := hin
  have hnodupu : (iterLocations c (s.update r (.without key))).Nodup := hnodup
  have hsu : (s.update r (.without key)).locations.keys.length ≤ depth := hs
  have hremoved : (removePatient c (locationStateChanged c (depth + 1)) r key p s).2 =
      if c.enableQuarantine = true ∧ ((s.update r (.without key)).heap r).state = .normal ∧
          p.state ≠ .dead then
        checkQuarantine c (locationStateChanged c (depth + 1)) r (s.update r (.without key))
      else s.update r (.without key) := rfl
  rw [hremoved]
  generalize s.update r (.without key) = u at hself hrest hinu hnodupu hsu hsafe ⊢
  by_cases hcheck : c.enableQuarantine = true ∧ (u.heap r).state = .normal ∧ p.state ≠ .dead
  · rw [if_pos hcheck]
    exact minded_checkQuarantine hinu hnodupu hsu hrest (hsafe (.inr hcheck.2))
  · rw [if_neg hcheck]
    intro r' hr'
    by_cases he : r' = r
    · subst he
      cases hst : (u.heap r').state with
      | normal =>
        have hp : p.state = .dead := by
          by_contra hp
          exact hcheck ⟨hon, hst, hp⟩
        rw [hself] at hst
        refine mindedAt_of_not ?_
        rw [hself]
        exact hdead hp hst
      | recovering => exact mindedAt_recovering hst
      | isolated =>
        intro ha
        rw [hst]
        refine ⟨fun he => (by cases he), fun hclerk _ => ?_⟩
        cases hp : (u.heap r').paused with
        | true => exact .inl rfl
        | false => exact .inr ((hsafe (.inl hst) hp).1 hclerk ha)
    · exact hrest r' hr' he

theorem minded_patientResurrected {X L : Ref → Prop} (hon : c.enableQuarantine = true)
    (hheld : Held c X L s) (hin : r ∈ iterLocations c s) (hnodup : (iterLocations c s).Nodup)
    (hs : s.locations.keys.length ≤ depth)
    (hothers : ∀ r' ∈ iterLocations c s, r' ≠ r → MindedAt c s r') {key : String} {p : Patient}
    (hp : (s.heap r).patients.lookup key = some p) (halive : p.state = .alive) :
    Minded c (patientResurrected c (locationStateChanged c (depth + 1)) r key s) := by
  have hself : (s.update r (.forget key)).heap r = (s.heap r).forget key := update_heap_self _ _ _
  have hrest : ∀ r' ∈ iterLocations c s, r' ≠ r → MindedAt c (s.update r (.forget key)) r' := by
    intro r' hr' he
    have hheap : (s.update r (.forget key)).heap r' = s.heap r' := update_heap_ne _ _ he
    exact (hothers r' hr' he).mono (by rw [hheap]; exact id) (by rw [hheap])
      (by rw [hheap]; exact id) id fun _ hl => hl
  have hforget := hheld.flag (r := r) (.forget key) (fun _ => rfl) (fun _ => rfl) fun _ => rfl
  have hiter : iterLocations c (s.update r (.forget key)) = iterLocations c s := rfl
  have hlocations : (s.update r (.forget key)).locations = s.locations := rfl
  have hresident : ((s.update r (.forget key)).heap r).patients.lookup key = some p := by
    rw [hself]
    exact hp
  rw [patientResurrected_eq]
  dsimp only
  generalize s.update r (.forget key) = u at hrest hforget hiter hlocations hresident ⊢
  rw [if_neg (by simp [hon])]
  have hdepth : u.locations.keys.length < depth + 1 := by
    rw [hlocations]
    exact Nat.lt_succ_of_le hs
  have hinu : r ∈ iterLocations c u := by
    rw [hiter]
    exact hin
  have hsole := (hforget.except r).sole hinu
  -- the location gets a state, and somebody is alive there
  have hset : ∀ st, st ≠ .isolated →
      (∀ r' ∈ iterLocations c u, r' ≠ r →
        MindedAt c (locationStateChanged c (depth + 1) r (u.locate r st)) r') ∧
      ((locationStateChanged c (depth + 1) r (u.locate r st)).heap r).state = st ∧
      Settled (u.locate r st) (locationStateChanged c (depth + 1) r (u.locate r st)) := by
    intro st hst
    have hstate : ((u.locate r st).heap r).state = st := by
      rw [locate_state, if_pos rfl]
    have hne : ((u.locate r st).heap r).state ≠ .isolated := by
      rw [hstate]
      exact hst
    have hlively : (u.locate r st).state = .isolated → ((u.locate r st).heap r).name ≠ c.location →
        (∃ l ∈ iterLocations c (u.locate r st), Lively c ((u.locate r st).heap l)) ∨
          ∀ l ∈ iterLocations c (u.locate r st), ((u.locate r st).heap l).state ≠ .isolated := by
      refine fun _ hname => .inl ⟨r, hinu, hne, hname, Nat.pos_of_ne_zero fun hzero => ?_⟩
      refine countPatients_eq_zero.mp hzero key p ?_ halive
      rw [Clerk.locate, update_heap_self]
      exact hresident
    refine ⟨fun r' hr' he => ?_, ?_, ?_⟩
    · have hindexed : Indexed (u.locate r st) :=
        ((hforget.except r).update (.inr rfl) (fun l => { l with state := st }) (fun _ => rfl)
          fun hoff => by rw [hon] at hoff; cases hoff).indexed
      have hheap : (u.locate r st).heap r' = u.heap r' := update_heap_ne _ _ he
      have hminded : MindedAt c (u.locate r st) r' :=
        (hrest r' (hiter ▸ hr') he).mono (by rw [hheap]; exact id) (by rw [hheap])
          (by rw [hheap]; exact id) id fun _ hl => hl
      refine mindedAt_stateChanged hne hindexed (hsole.locate st) ?_ ?_
        (fun hiso hname => .inl (hlively hiso hname)) hr' he hminded
      · exact hiter ▸ hnodup
      · exact (recoveringCount_le _).trans (Nat.le_of_lt_succ hdepth)
    · exact ((stateChanged_secure hne hlively _).1).trans hstate
    · exact settled_locationStateChanged (depth + 1) r
        (Nat.lt_of_le_of_lt (recoveringCount_le _) hdepth)
  have hnormal : Recovered c (u.heap r) →
      Minded c (locationStateChanged c (depth + 1) r (u.locate r .normal)) := by
    intro hrecovered r' hr'
    obtain ⟨hothers', -, hsettled⟩ := hset .normal fun he => by cases he
    rw [hsettled.frame.iterLocations] at hr'
    by_cases he : r' = r
    · subst he
      refine mindedAt_of_not fun ha => ?_
      obtain ⟨-, key', q, hq, hdead, -⟩ := awaiting_iff.mp (hsettled.awaiting ha)
      rw [Clerk.locate, update_heap_self] at hq
      exact countPatients_eq_zero.mp hrecovered.2 key' q hq hdead
    · exact hothers' r' hr' he
  split
  · rename_i hrecovering
    split
    · rename_i hrecovered
      exact hnormal hrecovered
    · intro r' hr'
      by_cases he : r' = r
      · rw [he]
        exact mindedAt_recovering hrecovering
      · exact hrest r' (hiter ▸ hr') he
  · split
    · rename_i hrecovered
      exact hnormal hrecovered
    · obtain ⟨hothers', hstate, hsettled⟩ := hset .recovering fun he => by cases he
      have hheldt := (hforget.except r).setState (holding_locationStateChanged (depth + 1)) hsole
        hdepth .recovering fun hoff => by rw [hon] at hoff; cases hoff
      have hall : Minded c (locationStateChanged c (depth + 1) r (u.locate r .recovering)) := by
        intro r' hr'
        rw [hsettled.frame.iterLocations] at hr'
        by_cases he : r' = r
        · rw [he]
          exact mindedAt_recovering hstate
        · exact hothers' r' hr' he
      have hint : r ∈ iterLocations c
          (locationStateChanged c (depth + 1) r (u.locate r .recovering)) := by
        rw [hsettled.frame.iterLocations]
        exact hinu
      split
      · exact hall
      · unfold locationRecovering
        dsimp only
        rw [startRecovery_recovering hstate]
        replace hheldt : Held c (fun r' => X r' ∨ r' = r) L
          (locationStateChanged c (depth + 1) r (u.locate r .recovering)) := hheldt
        generalize locationStateChanged c (depth + 1) r (u.locate r .recovering) = v
          at hstate hheldt hall hint ⊢
        generalize (startRecovery c (locationStateChanged c (depth + 1)) r v).1 = time
        have hsched := rescheduled_locScheduleCall time r v
        intro r' hr'
        rw [hsched.settled.frame.iterLocations] at hr'
        by_cases he : r' = r
        · rw [he]
          refine mindedAt_recovering ?_
          rw [hsched.heap]
          exact hstate
        · refine (hall r' hr').rescheduled hsched fun _ hl => ?_
          exact (lifting_locScheduleCall_iff hheldt.indexed time).mpr
            (.inr ⟨hl, hheldt.name_ne hint hr' he⟩)

theorem minded_onDisconnected (hs : s.locations.keys.length ≤ depth) (h : Minded c s)
    (hsafe : s.state ≠ .disconnected → ∀ r ∈ iterLocations c s, Awaiting c (s.heap r) →
      (s.heap r).state ≠ .recovering) :
    Minded c (onDisconnected c (locationStateChanged c (depth + 1)) s) := by
  unfold onDisconnected
  split
  · rename_i hstate
    have hcut := (rescheduled_isoCancelCall s).settled.trans
      (settled_monitored (isoCancelCall s) .disconnected)
    have hpausing : Pausing c { isoCancelCall s with state := .disconnected } := .inl rfl
    generalize ({ isoCancelCall s with state := .disconnected } : Clerk) = v at hcut hpausing ⊢
    have hcount : recoveringCount c v ≤ depth + 1 :=
      hcut.recoveringCount_le.trans ((recoveringCount_le _).trans (Nat.le_succ_of_le hs))
    have hall := hcut.trans (settled_locPauseAll
      (fun r _ hr => settled_locationStateChanged (c := c) (depth + 1) r hr) hcount)
    have hcalm := calm_locPauseAll (k := locationStateChanged c depth) hpausing
    intro r hr ha
    have hr0 : r ∈ iterLocations c s := by
      rw [← hall.frame.iterLocations]
      exact hr
    have hisolated : (s.heap r).state = .isolated := by
      cases hst : (s.heap r).state with
      | isolated => rfl
      | normal => exact absurd hst (h r hr0 (hall.awaiting ha)).1
      | recovering => exact absurd hst (hsafe hstate r hr0 (hall.awaiting ha))
    refine ⟨?_, fun ht _ => .inl (hcalm.held (.inr ht) r hr)⟩
    rw [(hall.isolated_iff r).mpr hisolated]
    exact fun he => by cases he
  · exact h

theorem minded_onReconnected (hnodup : (iterLocations c s).Nodup)
    (hs : s.locations.keys.length ≤ depth) (h : Minded c s)
    (hsafe : s.state = .disconnected → SafelyResumed c s) :
    Minded c (onReconnected c (locationStateChanged c (depth + 1)) s) := by
  unfold onReconnected
  split
  · rename_i hstate
    have hcut := settled_monitored s .normal
    have hcount : recoveringCount c { s with state := .normal } ≤ depth + 1 :=
      (recoveringCount_le _).trans (Nat.le_succ_of_le hs)
    have hloop := settled_locResumeAll
      (fun r _ hr => settled_locationStateChanged (c := c) (depth + 1) r hr) hcount
    have hall := hcut.trans hloop
    have hresumed : Minded c
        (locResumeAll c (locationStateChanged c (depth + 1)) { s with state := .normal }) := by
      intro r hr
      rw [hall.frame.iterLocations] at hr
      refine mindedAt_locResumeAll (s := { s with state := .normal }) hnodup hcount
        (fun he => by cases he) (fun ha => (h r hr ha).1) ?_
      exact (hsafe hstate).imp (fun hl => secure_of_state rfl hcut (.inl hl))
        fun hfirst ha => hfirst r hr ha
    refine minded_checkIsolated ?_ (hall.recoveringCount_le.trans hcount) hresumed fun _ => ?_
    · rw [hall.frame.iterLocations]
      exact hnodup
    · refine (hsafe hstate).imp hall.lively fun hfirst => ?_
      have hlead : ∀ r ∈ iterLocations c
          (locResumeAll c (locationStateChanged c (depth + 1)) { s with state := .normal }),
          Awaiting c ((locResumeAll c (locationStateChanged c (depth + 1))
            { s with state := .normal }).heap r) →
          Leading c (locResumeAll c (locationStateChanged c (depth + 1))
            { s with state := .normal }) r := by
        intro r hr ha
        rw [hall.frame.iterLocations] at hr
        exact hall.leading ⟨hnodup, hfirst r hr (hall.awaiting ha)⟩
      exact ⟨fun r hr ha => (hlead r hr ha).isolated, .inr fun r hr ha => (hlead r hr ha).foremost⟩
  · exact h

theorem minded_quarantineLifted {X L : Ref → Prop} (hheld : Held c X L s) (hsole : Sole c s r)
    (hnodup : (iterLocations c s).Nodup) (hs : s.locations.keys.length ≤ depth)
    (hothers : ∀ r' ∈ iterLocations c s, r' ≠ r → MindedAt c s r')
    (hsafe : SafelyLifted c s (.liftLocation r)) :
    Minded c (quarantineLifted c (locationStateChanged c (depth + 1)) r s) := by
  have hstate : ((s.locate r .normal).heap r).state = .normal := by
    rw [locate_state, if_pos rfl]
  have hne : ((s.locate r .normal).heap r).state ≠ .isolated := by
    rw [hstate]
    exact fun he => by cases he
  have hname : ((s.locate r .normal).heap r).name = (s.heap r).name := by
    rw [Clerk.locate, update_heap_self]
  have hpausedSame : ((s.locate r .normal).heap r).paused = (s.heap r).paused :=
    update_state_paused s r r .normal
  have hawaiting : Awaiting c ((s.locate r .normal).heap r) → Awaiting c (s.heap r) := by
    rw [Clerk.locate, update_heap_self]
    exact fun ha => ha.of_flags rfl (Finset.Subset.refl _)
  have hnames : ∀ r', ((s.locate r .normal).heap r').name = (s.heap r').name := by
    intro r'
    by_cases he : r' = r
    · rw [he, hname]
    · rw [Clerk.locate, update_heap_ne _ _ he]
  have hindexed : Indexed (s.locate r .normal) :=
    hheld.indexed.same hnames rfl rfl rfl rfl
  have hdepth : recoveringCount c (s.locate r .normal) < depth + 1 :=
    Nat.lt_succ_of_le ((recoveringCount_le _).trans hs)
  have hset : Settled (s.locate r .normal)
      (locationStateChanged c (depth + 1) r (s.locate r .normal)) :=
    settled_locationStateChanged (depth + 1) r hdepth
  have hmono : ∀ r' ∈ iterLocations c s, r' ≠ r → MindedAt c (s.locate r .normal) r' := by
    intro r' hr' he
    have hheap : (s.locate r .normal).heap r' = s.heap r' := update_heap_ne _ _ he
    exact (hothers r' hr' he).mono (by rw [hheap]; exact id) (by rw [hheap])
      (by rw [hheap]; exact id) id fun _ hl => hl
  -- out of isolation, or the location is as it was
  have hcases : ((s.locate r .normal).state = .isolated →
        ((s.locate r .normal).heap r).name ≠ c.location →
        (∃ l ∈ iterLocations c (s.locate r .normal), Lively c ((s.locate r .normal).heap l)) ∨
          ∀ l ∈ iterLocations c (s.locate r .normal),
            ((s.locate r .normal).heap l).state ≠ .isolated) ∨
      ((s.state = .isolated ∧ (s.heap r).name ≠ c.location) ∧
        ∀ l ∈ iterLocations c (s.locate r .normal), Awaiting c ((s.locate r .normal).heap l) →
          Foremost c (s.locate r .normal) l) := by
    dsimp only [SafelyLifted] at hsafe
    split at hsafe
    · rename_i hout
      obtain hnone | hlively | hfirst := hsafe
      · exact .inl fun _ _ => .inr hnone
      · exact .inl fun _ _ => .inl hlively
      · exact .inr ⟨hout, hfirst⟩
    · rename_i hin
      refine .inl fun hiso hforeign => absurd ⟨hiso, ?_⟩ hin
      rw [← hname]
      exact hforeign
  refine Minded.bringOutYourDead (fun r' hr' he => ?_) fun hr ha => ?_
  · replace hr' : r' ∈ iterLocations c
      (locationStateChanged c (depth + 1) r (s.locate r .normal)) := hr'
    rw [hset.frame.iterLocations] at hr'
    refine mindedAt_stateChanged hne hindexed (hsole.locate .normal) hnodup
      ((recoveringCount_le _).trans hs) (fun hiso hforeign => ?_) hr' he (hmono r' hr' he)
    exact hcases.imp (fun h => h hiso hforeign) fun h => h.2
  · -- what was withheld here is brought out, or nothing was
    exfalso
    have hbefore := (settled_bringOutYourDead _ r).awaiting ha
    have hafter : Awaiting c ((s.locate r .normal).heap r) := hset.awaiting hbefore
    replace hr : r ∈ iterLocations c
      (locationStateChanged c (depth + 1) r (s.locate r .normal)) := hr
    rw [hset.frame.iterLocations] at hr
    obtain hsecure | ⟨-, hfirst⟩ := hcases
    · obtain ⟨-, hpaused⟩ :=
        stateChanged_secure hne hsecure (locationStateChanged c depth)
      obtain hresumed | ⟨hsame, hown⟩ := hpaused (.inl hr)
      · exact not_awaiting_bringOutYourDead hresumed ha
      · cases hp : (s.heap r).paused with
        | true =>
          dsimp only [SafelyLifted] at hsafe
          rw [if_neg fun hout => hout.2 (hname.symm.trans (hown hout.1))] at hsafe
          exact hsafe hp (hawaiting hafter)
        | false =>
          refine not_awaiting_bringOutYourDead ?_ ha
          show ((stateChanged c (locationStateChanged c depth) r (s.locate r .normal)).heap r).paused =
            false
          rw [hsame, hpausedSame, hp]
    · have hlead : Leading c (s.locate r .normal) r := ⟨hnodup, hfirst r hr hafter⟩
      exact hne hlead.isolated

end Callbacks

end Feat.Agents.Monitor
