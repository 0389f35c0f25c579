import Feat.Agents.Clerk

/- What every event of a clerk leaves alone, whatever loops and callbacks it runs
   through: a property that the assignments of the code keep, and that calls of the
   coroner for a dead patient keep (`Closed`), is kept by all of them.

   Two uses. `Frame` says what the callbacks do not touch. `Reported` says that the
   coroner is called for dead patients only, and once between two resurrections. -/
namespace Feat.Agents.Monitor
open Hash

/-- A property kept by every assignment that pausing, resuming, quarantine and its end
    make, and by calls of the coroner for a dead patient of the location. -/
structure Closed (P : Clerk → Prop) : Prop where
  located : ∀ s r st, P s → P (s.update r (fun l => { l with state := st }))
  paused : ∀ s r b, P s → P (s.update r (fun l => { l with paused := b }))
  monitored : ∀ s st, P s → P { s with state := st }
  scheduled : ∀ s calls lc ic n, P s →
    P { s with calls := calls, locationCalls := lc, isolatedCall := ic, issued := n }
  notified : ∀ s r key p, P s → (s.heap r).patients.lookup key = some p → p.state = .dead →
    P (notifyDeath r key p s)
  exhausted : ∀ s, P s → P { s with exhausted := true }

@[simp] theorem update_heap_self (s : Clerk) (r : Ref) (f : Location → Location) :
    (s.update r f).heap r = f (s.heap r) := Function.update_self _ _ _

theorem update_heap_ne (s : Clerk) {r r' : Ref} (f : Location → Location) (h : r' ≠ r) :
    (s.update r f).heap r' = s.heap r' := Function.update_of_ne h _ _

theorem mem_iterPatients {o : HashOrder String} {loc : Location} {state : PatientState}
    {key : String} {p : Patient} :
    (key, p) ∈ loc.iterPatients o state ↔ loc.patients.lookup key = some p ∧ p.state = state := by
  simp [Location.iterPatients, Dict.mem_items]

@[simp] theorem notifyDeath_residents (r r' : Ref) (key : String) (p : Patient) (s : Clerk) :
    ((notifyDeath r key p s).heap r').patients = (s.heap r').patients := by
  unfold notifyDeath patientDead
  split
  · rfl
  · split
    · rfl
    · by_cases h : r' = r
      · subst h
        simp
      · simp [update_heap_ne _ _ h]

/-! ## Calls -/

/-- Nothing but calls of the clerk and of its patron differs. -/
def Rescheduled (s t : Clerk) : Prop :=
  ∃ calls lc ic n,
    t = { s with calls := calls, locationCalls := lc, isolatedCall := ic, issued := n }

theorem rescheduled_locCancelCall (r : Ref) (s : Clerk) : Rescheduled s (locCancelCall r s) := by
  unfold locCancelCall cancelDelayedCall
  dsimp only
  split
  · exact ⟨_, _, _, _, rfl⟩
  · exact ⟨_, _, _, _, rfl⟩

theorem rescheduled_isoCancelCall (s : Clerk) : Rescheduled s (isoCancelCall s) := by
  unfold isoCancelCall cancelDelayedCall
  split
  · exact ⟨_, _, _, _, rfl⟩
  · exact ⟨_, _, _, _, rfl⟩

theorem rescheduled_locScheduleCall (delay : Nat) (r : Ref) (s : Clerk) :
    Rescheduled s (locScheduleCall delay r s) := by
  obtain ⟨calls, lc, ic, n, h⟩ := rescheduled_locCancelCall r s
  unfold locScheduleCall callLater
  dsimp only
  rw [h]
  exact ⟨_, _, _, _, rfl⟩

theorem rescheduled_isoScheduleCall (delay : Nat) (s : Clerk) :
    Rescheduled s (isoScheduleCall delay s) := by
  obtain ⟨calls, lc, ic, n, h⟩ := rescheduled_isoCancelCall s
  unfold isoScheduleCall callLater
  dsimp only
  rw [h]
  exact ⟨_, _, _, _, rfl⟩

/-! ## What a closed property holds of -/

section
variable {P : Clerk → Prop} (hP : Closed P) {c : Config}
include hP

theorem closed_rescheduled {s t : Clerk} (hst : Rescheduled s t) (h : P s) : P t := by
  obtain ⟨calls, lc, ic, n, rfl⟩ := hst
  exact hP.scheduled _ _ _ _ _ h

theorem closed_bringOutYourDead {r : Ref} {s : Clerk} (h : P s) : P (bringOutYourDead c r s) := by
  have hfold : ∀ (l : List (String × Patient)) (t : Clerk), P t →
      (∀ q ∈ l, (t.heap r).patients.lookup q.1 = some q.2 ∧ q.2.state = .dead) →
      P (l.foldl (fun s p => notifyDeath r p.1 p.2 s) t) := by
    intro l
    induction l with
    | nil => exact fun t ht _ => ht
    | cons q l ih =>
      intro t ht hl
      obtain ⟨hq, hdead⟩ := hl q (by simp)
      apply ih _ (hP.notified _ _ _ _ ht hq hdead)
      intro q' hq'
      rw [notifyDeath_residents]
      exact hl q' (by simp [hq'])
  exact hfold _ _ h (fun q hq => mem_iterPatients.mp hq)

variable {changed : Ref → Clerk → Clerk} (hch : ∀ r s, P s → P (changed r s))
include hch

theorem closed_setState {r : Ref} {state : LocationState} {s : Clerk} (h : P s) :
    P (setState changed r state s) := hch _ _ (hP.located _ _ _ h)

theorem closed_pause {r : Ref} {s : Clerk} (h : P s) : P (pause changed r s) := by
  have hpaused := hP.paused s r true h
  unfold pause
  dsimp only
  split
  · exact closed_setState hP hch hpaused
  · exact hpaused

theorem closed_locPauseAll {s : Clerk} (h : P s) : P (locPauseAll c changed s) := by
  unfold locPauseAll
  generalize iterLocations c s = l
  induction l generalizing s with
  | nil => exact h
  | cons r l ih =>
    apply ih
    exact closed_pause hP hch (closed_rescheduled hP (rescheduled_locCancelCall _ _) h)

theorem closed_checkIsolated {s : Clerk} (h : P s) : P (checkIsolated c changed s).2 := by
  unfold checkIsolated
  split
  · exact h
  · split
    · exact h
    · apply closed_locPauseAll hP hch
      exact closed_rescheduled hP (rescheduled_isoScheduleCall _ _) (hP.monitored _ _ h)

theorem closed_startQuarantine {r : Ref} {s : Clerk} (h : P s) :
    P (startQuarantine changed r s) := by
  unfold startQuarantine
  split
  · exact closed_setState hP hch h
  · exact h

theorem closed_needQuarantine {r : Ref} {s : Clerk} (h : P s) :
    P (needQuarantine c changed r s) := by
  have hiso := closed_checkIsolated hP hch (c := c) h
  have hstart : P (locStartQuarantine c changed r s) := by
    unfold locStartQuarantine
    dsimp only
    split
    · exact hiso
    · apply closed_startQuarantine hP hch
      exact closed_rescheduled hP (rescheduled_locCancelCall _ _) hiso
  unfold needQuarantine
  dsimp only
  split
  · exact closed_rescheduled hP (rescheduled_locScheduleCall _ _ _) hstart
  · exact hstart

theorem closed_locationRecovering {r : Ref} {s : Clerk} (h : P s) :
    P (locationRecovering c changed r s) := by
  have hstart : P (startRecovery c changed r s).2 := by
    unfold startRecovery
    split
    · dsimp only
      split
      · exact closed_setState hP hch h
      · exact h
    · exact h
  exact closed_rescheduled hP (rescheduled_locScheduleCall _ _ _) hstart

theorem closed_resume {r : Ref} {s : Clerk} (h : P s) : P (resume c changed r s) := by
  have hresumed := hP.paused s r false h
  unfold resume
  dsimp only
  split
  · exact closed_bringOutYourDead hP hresumed
  · split
    · exact closed_needQuarantine hP hch hresumed
    · exact closed_locationRecovering hP hch hresumed
    · exact hresumed

theorem closed_locResumeAll {s : Clerk} (h : P s) : P (locResumeAll c changed s) := by
  unfold locResumeAll
  generalize iterLocations c s = l
  induction l generalizing s with
  | nil => exact h
  | cons r l ih => exact ih (closed_resume hP hch h)

theorem closed_stateChanged {r : Ref} {s : Clerk} (h : P s) : P (stateChanged c changed r s) := by
  have hcancelled : P (if (s.heap r).state = .normal then locCancelCall r s else s) := by
    split
    · exact closed_rescheduled hP (rescheduled_locCancelCall _ _) h
    · exact h
  unfold stateChanged
  dsimp only
  generalize (if (s.heap r).state = .normal then locCancelCall r s else s) = t at hcancelled ⊢
  split
  · split
    · apply closed_locResumeAll hP hch
      exact closed_rescheduled hP (rescheduled_isoCancelCall _) (hP.monitored _ _ hcancelled)
    · exact hcancelled
  · split
    · exact hP.monitored _ _ hcancelled
    · exact hcancelled
  · exact hcancelled

theorem closed_checkQuarantine {r : Ref} {s : Clerk} (h : P s) :
    P (checkQuarantine c changed r s) := by
  have hset : P (setState changed r .isolated s) := closed_setState hP hch h
  unfold checkQuarantine
  dsimp only
  split
  · exact h
  · split
    · exact h
    · split
      · split
        · exact hset
        · exact closed_needQuarantine hP hch hset
      · exact h

theorem closed_quarantineLifted {r : Ref} {s : Clerk} (h : P s) :
    P (quarantineLifted c changed r s) :=
  closed_bringOutYourDead hP (closed_setState hP hch h)

theorem closed_onDisconnected {s : Clerk} (h : P s) : P (onDisconnected c changed s) := by
  unfold onDisconnected
  split
  · apply closed_locPauseAll hP hch
    exact hP.monitored _ _ (closed_rescheduled hP (rescheduled_isoCancelCall _) h)
  · exact h

theorem closed_onReconnected {s : Clerk} (h : P s) : P (onReconnected c changed s) := by
  unfold onReconnected
  split
  · exact closed_checkIsolated hP hch (closed_locResumeAll hP hch (hP.monitored _ _ h))
  · exact h

theorem closed_isoLiftQuarantine {s : Clerk} (h : P s) : P (isoLiftQuarantine c changed s) :=
  closed_locResumeAll hP hch (hP.monitored _ _ h)

omit hch in
theorem closed_locationStateChanged {depth : Nat} {r : Ref} {s : Clerk} (h : P s) :
    P (locationStateChanged c depth r s) := by
  induction depth generalizing r s with
  | zero => exact hP.exhausted _ h
  | succ depth ih => exact closed_stateChanged hP (fun _ _ => ih) h

end

/-! ## What the callbacks leave alone -/

/-- Who is where, and what the clerk knows, is the same. -/
structure Frame (s t : Clerk) : Prop where
  locations : t.locations = s.locations
  patients : t.patients = s.patients
  created : t.created = s.created
  name : ∀ r, (t.heap r).name = (s.heap r).name
  residents : ∀ r, (t.heap r).patients = (s.heap r).patients

theorem Frame.refl (s : Clerk) : Frame s s := ⟨rfl, rfl, rfl, fun _ => rfl, fun _ => rfl⟩

/-- An assignment to other fields of a location. -/
theorem Frame.update {s t : Clerk} (h : Frame s t) {r : Ref} {f : Location → Location}
    (hname : (f (t.heap r)).name = (t.heap r).name)
    (hres : (f (t.heap r)).patients = (t.heap r).patients) : Frame s (t.update r f) := by
  refine ⟨h.locations, h.patients, h.created, fun r' => ?_, fun r' => ?_⟩
  · by_cases hr : r' = r
    · subst hr
      rw [update_heap_self, hname, h.name]
    · rw [update_heap_ne _ _ hr, h.name]
  · by_cases hr : r' = r
    · subst hr
      rw [update_heap_self, hres, h.residents]
    · rw [update_heap_ne _ _ hr, h.residents]

theorem Frame.closed (s : Clerk) : Closed (Frame s) where
  located _ _ _ h := h.update rfl rfl
  paused _ _ _ h := h.update rfl rfl
  monitored _ _ h := ⟨h.locations, h.patients, h.created, h.name, h.residents⟩
  scheduled _ _ _ _ _ h := ⟨h.locations, h.patients, h.created, h.name, h.residents⟩
  exhausted _ h := ⟨h.locations, h.patients, h.created, h.name, h.residents⟩
  notified t r key p h _ _ := by
    unfold notifyDeath patientDead
    split
    · exact h
    · split
      · exact h
      · have hset := h.update (r := r) (f := fun l => { l with dead := insert key l.dead }) rfl rfl
        exact ⟨hset.locations, hset.patients, hset.created, hset.name, hset.residents⟩

/-- Known locations go by their name, and a patient is where the clerk has it. -/
structure Placed (s : Clerk) : Prop where
  named : ∀ n r, s.locations.lookup n = some r → (s.heap r).name = n ∧ r < s.created
  resident : ∀ r key p, (s.heap r).patients.lookup key = some p →
    s.patients.lookup key = some r ∧ s.locations.lookup (s.heap r).name = some r ∧
      p.location = (s.heap r).name

theorem Frame.placed {s t : Clerk} (h : Frame s t) (hs : Placed s) : Placed t := by
  refine ⟨fun n r hn => ?_, fun r key p hp => ?_⟩
  · rw [h.locations] at hn
    rw [h.name, h.created]
    exact hs.named n r hn
  · rw [h.residents] at hp
    rw [h.patients, h.locations, h.name]
    exact hs.resident r key p hp

/-! ## What the coroner was told -/

/-- Between two calls of the coroner for a patient it was resurrected, or it is another
    patient added under the same key. -/
def Once (history : List Notice) : Prop :=
  ∀ key xs p st ys p' st' zs,
    history = xs ++ .dead key p st :: (ys ++ .dead key p' st' :: zs) →
      .resurrected key ∈ ys ∨ .added key ∈ ys

/-- The coroner was called for the patient since it was last resurrected. -/
def Outstanding (history : List Notice) (key : String) : Prop :=
  ∃ xs p st ys, history = xs ++ .dead key p st :: ys ∧ .resurrected key ∉ ys ∧ .added key ∉ ys

theorem outstanding_concat {history : List Notice} {n : Notice} {key : String}
    (h : Outstanding (history ++ [n]) key) :
    (∃ p st, n = .dead key p st) ∨
      (Outstanding history key ∧ n ≠ .resurrected key ∧ n ≠ .added key) := by
  obtain ⟨xs, p, st, ys, he, hres, hadd⟩ := h
  obtain rfl | ⟨zs, m, rfl⟩ := List.eq_nil_or_concat ys
  · obtain ⟨-, hn⟩ := List.append_inj' (he.trans rfl) rfl
    exact .inl ⟨p, st, List.cons.inj hn |>.1⟩
  · have hcut : history ++ [n] = (xs ++ .dead key p st :: zs) ++ [m] := by simpa using he
    obtain ⟨hh, hn⟩ := List.append_inj' hcut rfl
    have hnm : n = m := List.cons.inj hn |>.1
    subst hnm
    refine .inr ⟨⟨xs, p, st, zs, hh, ?_, ?_⟩, ?_, ?_⟩
    · exact fun hm => hres (by simp [hm])
    · exact fun hm => hadd (by simp [hm])
    · exact fun hm => hres (by simp [hm])
    · exact fun hm => hadd (by simp [hm])

theorem Once.concat {history : List Notice} {n : Notice} (h : Once history)
    (hn : ∀ key p st, n = .dead key p st → ¬ Outstanding history key) : Once (history ++ [n]) := by
  intro key xs p st ys p' st' zs he
  obtain rfl | ⟨ws, m, rfl⟩ := List.eq_nil_or_concat zs
  · have hcut : history ++ [n] = (xs ++ .dead key p st :: ys) ++ [.dead key p' st'] := by
      simpa using he
    obtain ⟨hh, hm⟩ := List.append_inj' hcut rfl
    have hnew : n = .dead key p' st' := List.cons.inj hm |>.1
    by_contra hnot
    obtain ⟨hres, hadd⟩ := not_or.mp hnot
    exact hn key p' st' hnew ⟨xs, p, st, ys, hh, hres, hadd⟩
  · have hcut : history ++ [n] =
        (xs ++ .dead key p st :: (ys ++ .dead key p' st' :: ws)) ++ [m] := by
      simpa using he
    exact h key xs p st ys p' st' ws (List.append_inj' hcut rfl).1

/-- The coroner is called for dead patients, once until they are resurrected, and the
    location remembers for whom. -/
structure Reported (s : Clerk) : Prop where
  dead : ∀ key p st, .dead key p st ∈ s.history → p = .dead
  once : Once s.history
  flagged : ∀ key, Outstanding s.history key → ∀ r p,
    (s.heap r).patients.lookup key = some p → key ∈ (s.heap r).dead

theorem Reported.heap {s t : Clerk} (h : Reported s) (hhist : t.history = s.history)
    (hheap : ∀ r key p, (t.heap r).patients.lookup key = some p →
      ∃ p', (s.heap r).patients.lookup key = some p' ∧
        (key ∈ (s.heap r).dead → key ∈ (t.heap r).dead)) : Reported t := by
  refine ⟨?_, ?_, fun key hout r p hp => ?_⟩
  · rw [hhist]; exact h.dead
  · rw [hhist]; exact h.once
  · rw [hhist] at hout
    obtain ⟨p', hp', hdead⟩ := hheap r key p hp
    exact hdead (h.flagged key hout r p' hp')

theorem Reported.update {s : Clerk} (h : Reported s) {r : Ref} {f : Location → Location}
    (hf : ∀ key p, (f (s.heap r)).patients.lookup key = some p →
      ∃ p', (s.heap r).patients.lookup key = some p' ∧
        (key ∈ (s.heap r).dead → key ∈ (f (s.heap r)).dead)) : Reported (s.update r f) := by
  refine h.heap (t := s.update r f) rfl (fun r' key p hp => ?_)
  by_cases hr : r' = r
  · subst hr
    rw [update_heap_self] at hp ⊢
    exact hf key p hp
  · rw [update_heap_ne _ _ hr] at hp ⊢
    exact ⟨p, hp, id⟩

theorem reported_notifyDeath {s : Clerk} {r : Ref} {key : String} {p : Patient} (hs : Placed s)
    (h : Reported s) (hp : (s.heap r).patients.lookup key = some p) (hdead : p.state = .dead) :
    Reported (notifyDeath r key p s) := by
  unfold notifyDeath
  split
  · exact h
  · split
    · exact h
    · rename_i hnot
      have hfresh : ¬ Outstanding s.history key := fun hout => hnot (h.flagged key hout r p hp)
      refine ⟨?_, ?_, ?_⟩
      · intro key' p' st' hm
        simp only [patientDead, Clerk.update, List.mem_append, List.mem_singleton,
          Notice.dead.injEq] at hm
        obtain hm | ⟨-, rfl, -⟩ := hm
        · exact h.dead key' p' st' hm
        · exact hdead
      · apply h.once.concat
        intro key' p' st' he
        cases he
        exact hfresh
      · intro key' hout r' p' hp'
        have hold : (s.heap r').patients.lookup key' = some p' := by
          by_cases hr : r' = r
          · subst hr
            simpa [patientDead] using hp'
          · simpa [patientDead, update_heap_ne _ _ hr] using hp'
        by_cases hr : r' = r
        · subst hr
          simp only [patientDead, update_heap_self, Finset.mem_insert]
          obtain ⟨q, st, he⟩ | ⟨hout', -, -⟩ := outstanding_concat hout
          · cases he
            exact .inl rfl
          · exact .inr (h.flagged key' hout' r' p' hold)
        · simp only [patientDead, update_heap_ne _ _ hr]
          obtain ⟨q, st, he⟩ | ⟨hout', -, -⟩ := outstanding_concat hout
          · cases he
            -- a patient is at one location only
            have hplace := (hs.resident r _ p hp).1.symm.trans (hs.resident r' _ p' hold).1
            exact absurd (Option.some.inj hplace).symm hr
          · exact h.flagged key' hout' r' p' hold

theorem reported_closed : Closed (fun s => Placed s ∧ Reported s) where
  located s r st h := ⟨((Frame.closed s).located s r st (.refl s)).placed h.1,
    h.2.update fun _ p hp => ⟨p, hp, id⟩⟩
  paused s r b h := ⟨((Frame.closed s).paused s r b (.refl s)).placed h.1,
    h.2.update fun _ p hp => ⟨p, hp, id⟩⟩
  monitored s st h := ⟨((Frame.closed s).monitored s st (.refl s)).placed h.1,
    h.2.heap rfl fun _ _ p hp => ⟨p, hp, id⟩⟩
  scheduled s calls lc ic n h :=
    ⟨((Frame.closed s).scheduled s calls lc ic n (.refl s)).placed h.1,
      h.2.heap rfl fun _ _ p hp => ⟨p, hp, id⟩⟩
  exhausted s h := ⟨((Frame.closed s).exhausted s (.refl s)).placed h.1,
    h.2.heap rfl fun _ _ p hp => ⟨p, hp, id⟩⟩
  notified s r key p h hp hdead :=
    ⟨((Frame.closed s).notified s r key p (.refl s) hp hdead).placed h.1,
      reported_notifyDeath h.1 h.2 hp hdead⟩

/-! ## One event -/

theorem patient_eq_some {s : Clerk} {key : String} {r : Ref} {p : Patient} :
    s.patient key = some (r, p) ↔
      s.patients.lookup key = some r ∧ (s.heap r).patients.lookup key = some p := by
  unfold Clerk.patient
  cases hr : s.patients.lookup key with
  | none => simp
  | some r' =>
    cases hp : (s.heap r').patients.lookup key with
    | none =>
      simp only [Option.bind_eq_bind, Option.bind_some, hp, Option.bind_none, Option.some.injEq]
      refine ⟨fun h => absurd h (by simp), fun ⟨he, h⟩ => ?_⟩
      subst he
      exact absurd (hp.symm.trans h) (by simp)
    | some p' =>
      simp only [Option.bind_eq_bind, Option.bind_some, hp, Option.some.injEq, Option.pure_def,
        Prod.mk.injEq]
      refine ⟨fun ⟨he, h⟩ => ?_, fun ⟨he, h⟩ => ?_⟩
      · subst he
        exact ⟨rfl, hp.trans (congrArg some h)⟩
      · subst he
        exact ⟨rfl, Option.some.inj (hp.symm.trans h)⟩

theorem lookup_mark {loc : Location} {key key' : String} {p q : Patient} {st : PatientState}
    (hp : loc.patients.lookup key = some p)
    (h : (loc.mark key p st).patients.lookup key' = some q) :
    ∃ q', loc.patients.lookup key' = some q' ∧ q'.location = q.location := by
  by_cases hk : key' = key
  · subst hk
    simp only [Location.mark, AList.lookup_insert, Option.some.injEq] at h
    subst h
    exact ⟨p, hp, rfl⟩
  · simp only [Location.mark, AList.lookup_insert_ne hk] at h
    exact ⟨q, h, rfl⟩

/-- Where everybody is stays when residents of one location leave or change. -/
theorem Placed.update {s : Clerk} (h : Placed s) {r : Ref} {f : Location → Location}
    (hname : (f (s.heap r)).name = (s.heap r).name)
    (hf : ∀ key p, (f (s.heap r)).patients.lookup key = some p →
      ∃ p', (s.heap r).patients.lookup key = some p' ∧ p'.location = p.location) :
    Placed (s.update r f) := by
  refine ⟨fun n r' hn => ?_, fun r' key p hp => ?_⟩
  · by_cases hr : r' = r
    · subst hr
      rw [update_heap_self, hname]
      exact h.named n r' hn
    · rw [update_heap_ne _ _ hr]
      exact h.named n r' hn
  · by_cases hr : r' = r
    · subst hr
      rw [update_heap_self] at hp ⊢
      obtain ⟨p', hp', hloc⟩ := hf key p hp
      rw [hname, ← hloc]
      exact h.resident r' key p' hp'
    · rw [update_heap_ne _ _ hr] at hp ⊢
      exact h.resident r' key p hp

theorem marked {s : Clerk} {key : String} {r : Ref} {p : Patient} {st : PatientState}
    (hp : s.patient key = some (r, p)) (h : Placed s ∧ Reported s) :
    Placed (s.update r (.mark key p st)) ∧ Reported (s.update r (.mark key p st)) := by
  have hlook := (patient_eq_some.mp hp).2
  refine ⟨h.1.update rfl fun _ _ hq => lookup_mark hlook hq, h.2.update fun _ _ hq => ?_⟩
  obtain ⟨q', hq', -⟩ := lookup_mark hlook hq
  exact ⟨q', hq', id⟩

theorem noticed {s : Clerk} (h : Placed s ∧ Reported s) {n : Notice}
    (hn : ∀ key p st, n ≠ .dead key p st) :
    Placed { s with history := s.history ++ [n] } ∧
      Reported { s with history := s.history ++ [n] } := by
  refine ⟨⟨h.1.named, h.1.resident⟩, fun key p st hm => ?_, ?_, fun key hout => ?_⟩
  · obtain hm | hm := List.mem_append.mp hm
    · exact h.2.dead key p st hm
    · exact absurd (List.mem_singleton.mp hm).symm (hn key p st)
  · exact h.2.once.concat fun key p st he => absurd he (hn key p st)
  · obtain ⟨p, st, he⟩ | ⟨hout, -, -⟩ := outstanding_concat hout
    · exact absurd he (hn key p st)
    · exact h.2.flagged key hout

theorem not_outstanding_resurrected (history : List Notice) (key : String) :
    ¬ Outstanding (history ++ [.resurrected key]) key := fun h => by
  obtain ⟨p, st, he⟩ | ⟨-, hne, -⟩ := outstanding_concat h
  · cases he
  · exact hne rfl

theorem not_outstanding_added (history : List Notice) (key : String) :
    ¬ Outstanding (history ++ [.added key]) key := fun h => by
  obtain ⟨p, st, he⟩ | ⟨-, -, hne⟩ := outstanding_concat h
  · cases he
  · exact hne rfl

/-- A location made for the first patient under its name. -/
theorem location_made {s : Clerk} (h : Placed s ∧ Reported s) {name : String}
    (hnew : s.locations.lookup name = none) :
    Placed { s.update s.created (fun _ => .new name) with
        created := s.created + 1, locations := s.locations.insert name s.created } ∧
      Reported { s.update s.created (fun _ => .new name) with
        created := s.created + 1, locations := s.locations.insert name s.created } := by
  have hresident : ∀ r key p,
      ((s.update s.created (fun _ => .new name)).heap r).patients.lookup key = some p →
        r ≠ s.created ∧ (s.heap r).patients.lookup key = some p := by
    intro r key p hp
    by_cases hr : r = s.created
    · subst hr
      simp [Location.new] at hp
    · exact ⟨hr, by rwa [update_heap_ne _ _ hr] at hp⟩
  refine ⟨⟨fun n r hn => ?_, fun r key p hp => ?_⟩, ?_⟩
  · by_cases hname : n = name
    · subst hname
      have hr : r = s.created := by simpa using hn.symm
      subst hr
      exact ⟨by simp [Location.new], Nat.lt_succ_self _⟩
    · rw [AList.lookup_insert_ne hname] at hn
      obtain ⟨hnamed, hlt⟩ := h.1.named n r hn
      refine ⟨?_, Nat.lt_succ_of_lt hlt⟩
      show ((s.update s.created (fun _ => .new name)).heap r).name = n
      rw [update_heap_ne _ _ (Nat.ne_of_lt hlt), hnamed]
  · obtain ⟨hr, hp⟩ := hresident r key p hp
    have hheap : (s.update s.created (fun _ => .new name)).heap r = s.heap r :=
      update_heap_ne _ _ hr
    show s.patients.lookup key = some r ∧ (s.locations.insert name s.created).lookup
      ((s.update s.created (fun _ => .new name)).heap r).name = some r ∧
        p.location = ((s.update s.created (fun _ => .new name)).heap r).name
    rw [hheap]
    obtain ⟨hkey, hloc, hp⟩ := h.1.resident r key p hp
    refine ⟨hkey, ?_, hp⟩
    rw [AList.lookup_insert_ne, hloc]
    intro he
    rw [he, hnew] at hloc
    cases hloc
  · refine h.2.heap rfl fun r key p hp => ?_
    obtain ⟨hr, hp⟩ := hresident r key p hp
    refine ⟨p, hp, ?_⟩
    show key ∈ (s.heap r).dead → key ∈ ((s.update s.created (fun _ => .new name)).heap r).dead
    rw [update_heap_ne _ _ hr]
    exact id

/-- A patient put into a known location. -/
theorem patient_put {s : Clerk} (h : Placed s ∧ Reported s) {key : String} {r : Ref}
    {patient : Patient} (hnot : key ∉ s.patients) (hout : ¬ Outstanding s.history key)
    (hr : s.locations.lookup patient.location = some r) :
    Placed { s.update r (fun l => { l with patients := l.patients.insert key patient }) with
        patients := s.patients.insert key r } ∧
      Reported { s.update r (fun l => { l with patients := l.patients.insert key patient }) with
        patients := s.patients.insert key r } := by
  have hname := (h.1.named _ _ hr).1
  have hresident : ∀ r' key' p,
      ((s.update r (fun l => { l with patients := l.patients.insert key patient })).heap
        r').patients.lookup key' = some p →
      (r' = r ∧ key' = key ∧ p = patient) ∨
        (key' ≠ key ∧ (s.heap r').patients.lookup key' = some p) := by
    intro r' key' p hp
    by_cases hr' : r' = r
    · subst hr'
      rw [update_heap_self] at hp
      by_cases hk : key' = key
      · subst hk
        exact .inl ⟨rfl, rfl, by simpa using hp.symm⟩
      · exact .inr ⟨hk, by simpa [AList.lookup_insert_ne hk] using hp⟩
    · rw [update_heap_ne _ _ hr'] at hp
      refine .inr ⟨fun hk => hnot ?_, hp⟩
      have hat := (h.1.resident r' key' p hp).1
      rw [hk] at hat
      exact AList.lookup_isSome.mp (by rw [hat]; rfl)
  have hnamed : ∀ r',
      ((s.update r (fun l => { l with patients := l.patients.insert key patient })).heap r').name =
        (s.heap r').name := by
    intro r'
    by_cases hr' : r' = r
    · subst hr'
      rw [update_heap_self]
    · rw [update_heap_ne _ _ hr']
  refine ⟨⟨fun n r' hn => ?_, fun r' key' p hp => ?_⟩, ?_, ?_, fun key' hout' r' p hp => ?_⟩
  · exact ⟨(hnamed r').trans (h.1.named n r' hn).1, (h.1.named n r' hn).2⟩
  · show (s.patients.insert key r).lookup key' = some r' ∧ s.locations.lookup _ = some r' ∧
      p.location = _
    rw [hnamed]
    obtain ⟨rfl, rfl, rfl⟩ | ⟨hk, hp⟩ := hresident r' key' p hp
    · refine ⟨AList.lookup_insert _, ?_, hname.symm⟩
      rw [hname, hr]
    · rw [AList.lookup_insert_ne hk]
      exact h.1.resident r' key' p hp
  · exact h.2.dead
  · exact h.2.once
  · obtain ⟨-, rfl, -⟩ | ⟨-, hp⟩ := hresident r' key' p hp
    · exact absurd hout' hout
    · have hflag := h.2.flagged key' hout' r' p hp
      show key' ∈
        ((s.update r (fun l => { l with patients := l.patients.insert key patient })).heap r').dead
      by_cases hr' : r' = r
      · subst hr'
        rw [update_heap_self]
        exact hflag
      · rw [update_heap_ne _ _ hr']
        exact hflag

/-- A patient taken from its location and from the clerk. -/
theorem patient_taken {s : Clerk} (h : Placed s ∧ Reported s) {key : String} {r : Ref}
    {patient : Patient} (hp : s.patient key = some (r, patient)) :
    Placed (Clerk.update { s with patients := s.patients.erase key } r fun l =>
        { l with patients := l.patients.erase key, dead := l.dead.erase key }) ∧
      Reported (Clerk.update { s with patients := s.patients.erase key } r fun l =>
        { l with patients := l.patients.erase key, dead := l.dead.erase key }) := by
  obtain ⟨hat, -⟩ := patient_eq_some.mp hp
  let f : Location → Location := fun l =>
    { l with patients := l.patients.erase key, dead := l.dead.erase key }
  have hresident : ∀ r' key' p, ((s.update r f).heap r').patients.lookup key' = some p →
      key' ≠ key ∧ (s.heap r').patients.lookup key' = some p := by
    intro r' key' p hp
    by_cases hr : r' = r
    · subst hr
      rw [update_heap_self] at hp
      by_cases hk : key' = key
      · subst hk
        simp [f] at hp
      · exact ⟨hk, by simpa [f, AList.lookup_erase_ne hk] using hp⟩
    · rw [update_heap_ne _ _ hr] at hp
      refine ⟨fun hk => hr ?_, hp⟩
      have hplace := (h.1.resident r' key' p hp).1
      rw [hk, hat] at hplace
      exact (Option.some.inj hplace).symm
  have hnamed : ∀ r', ((s.update r f).heap r').name = (s.heap r').name := by
    intro r'
    by_cases hr : r' = r
    · subst hr
      rw [update_heap_self]
    · rw [update_heap_ne _ _ hr]
  refine ⟨⟨fun n r' hn => ?_, fun r' key' p hp => ?_⟩, ?_, ?_, fun key' hout r' p hp => ?_⟩
  · exact ⟨(hnamed r').trans (h.1.named n r' hn).1, (h.1.named n r' hn).2⟩
  · obtain ⟨hk, hp⟩ := hresident r' key' p hp
    show (s.patients.erase key).lookup key' = some r' ∧
      s.locations.lookup ((s.update r f).heap r').name = some r' ∧
        p.location = ((s.update r f).heap r').name
    rw [hnamed, AList.lookup_erase_ne hk]
    exact h.1.resident r' key' p hp
  · exact h.2.dead
  · exact h.2.once
  · obtain ⟨hk, hp⟩ := hresident r' key' p hp
    have hflag := h.2.flagged key' hout r' p hp
    show key' ∈ ((s.update r f).heap r').dead
    by_cases hr : r' = r
    · subst hr
      rw [update_heap_self]
      exact Finset.mem_erase.mpr ⟨hk, hflag⟩
    · rw [update_heap_ne _ _ hr]
      exact hflag

/-- A location without patients is forgotten. -/
theorem location_dropped {s : Clerk} (h : Placed s ∧ Reported s) {r : Ref}
    (hempty : (s.heap r).patients.keys.length = 0)
    (hr : s.locations.lookup (s.heap r).name = some r) :
    Placed { s with locations := s.locations.erase (s.heap r).name } ∧
      Reported { s with locations := s.locations.erase (s.heap r).name } := by
  refine ⟨⟨fun n r' hn => ?_, fun r' key p hp => ?_⟩, h.2.heap rfl fun _ _ p hp => ⟨p, hp, id⟩⟩
  · by_cases hname : n = (s.heap r).name
    · rw [hname, AList.lookup_erase] at hn
      cases hn
    · rw [AList.lookup_erase_ne hname] at hn
      exact h.1.named n r' hn
  · obtain ⟨hkey, hloc, hp'⟩ := h.1.resident r' key p hp
    refine ⟨hkey, ?_, hp'⟩
    show (s.locations.erase (s.heap r).name).lookup (s.heap r').name = some r'
    rw [AList.lookup_erase_ne, hloc]
    intro hname
    rw [hname, hr] at hloc
    cases hloc
    have hmem : key ∈ (s.heap r).patients := AList.lookup_isSome.mp (by rw [hp]; rfl)
    have hpos := List.length_pos_of_mem (AList.mem_keys.mp hmem)
    omega

theorem reported_onPatientAdded {s : Clerk} (h : Placed s ∧ Reported s) {key : String}
    {patient : Patient} (hnot : key ∉ s.patients) (hout : ¬ Outstanding s.history key) :
    Placed (onPatientAdded key patient s) ∧ Reported (onPatientAdded key patient s) := by
  unfold onPatientAdded
  cases hr : s.locations.lookup patient.location with
  | some r => exact patient_put h hnot hout hr
  | none =>
    exact patient_put (location_made h hr) hnot hout (AList.lookup_insert _)

theorem reported_onPatientRemoved {c : Config} {changed : Ref → Clerk → Clerk} {s : Clerk}
    (hch : ∀ (P : Clerk → Prop), Closed P → ∀ r s, P s → P (changed r s))
    (h : Placed s ∧ Reported s) {key : String} {r : Ref} {patient : Patient}
    (hp : s.patient key = some (r, patient)) :
    Placed (onPatientRemoved c changed key patient s) ∧
      Reported (onPatientRemoved c changed key patient s) := by
  obtain ⟨hat, hpat⟩ := patient_eq_some.mp hp
  obtain ⟨-, hloc, hpl⟩ := h.1.resident r key patient hpat
  have htaken := patient_taken h hp
  unfold onPatientRemoved
  dsimp only
  rw [hpl, hloc]
  dsimp only
  generalize ht : removePatient c changed r key patient { s with patients := s.patients.erase key }
    = out
  have hout : (Placed out.2 ∧ Reported out.2) ∧ out.2.locations = s.locations ∧
      (out.2.heap r).name = (s.heap r).name ∧
        out.1 = decide ((out.2.heap r).patients.keys.length = 0) := by
    rw [← ht]
    unfold removePatient
    dsimp only
    split
    · refine ⟨closed_checkQuarantine reported_closed (hch _ reported_closed) htaken, ?_, ?_, rfl⟩
      · exact (closed_checkQuarantine (Frame.closed _) (hch _ (Frame.closed _)) (.refl _)).locations
      · rw [(closed_checkQuarantine (Frame.closed _) (hch _ (Frame.closed _)) (.refl _)).name,
          update_heap_self]
    · exact ⟨htaken, rfl, by rw [update_heap_self], rfl⟩
  obtain ⟨hgood, hlocs, hname, hempty⟩ := hout
  split
  · rename_i hout
    apply location_dropped hgood (by simpa [hempty] using hout)
    rw [hlocs, hname, hloc]
  · exact hgood

theorem reported_patientDied {c : Config} {changed : Ref → Clerk → Clerk} {s : Clerk}
    (hch : ∀ r s, Placed s ∧ Reported s → Placed (changed r s) ∧ Reported (changed r s))
    (h : Placed s ∧ Reported s) {key : String} {r : Ref} {p : Patient}
    (hp : (s.heap r).patients.lookup key = some p) (hdead : p.state = .dead) :
    Placed (patientDied c changed r key p s) ∧ Reported (patientDied c changed r key p s) := by
  have hnotify := reported_closed.notified s r key p h hp hdead
  unfold patientDied
  split
  · exact hnotify
  · split
    · exact hnotify
    · exact closed_checkQuarantine reported_closed hch h

theorem reported_patientResurrected {c : Config} {changed : Ref → Clerk → Clerk} {s : Clerk}
    (hch : ∀ r s, Placed s ∧ Reported s → Placed (changed r s) ∧ Reported (changed r s))
    (h : Placed s ∧ Reported s) {key : String} {r : Ref} (hout : ¬ Outstanding s.history key) :
    Placed (patientResurrected c changed r key s) ∧
      Reported (patientResurrected c changed r key s) := by
  -- the notification flag goes, and nothing is outstanding that would need it
  have hcleared : Placed (s.update r (fun l => { l with dead := l.dead.erase key })) ∧
      Reported (s.update r (fun l => { l with dead := l.dead.erase key })) := by
    refine ⟨h.1.update rfl fun _ p hp => ⟨p, hp, rfl⟩, h.2.dead, h.2.once, ?_⟩
    intro key' hout' r' p hp
    by_cases hr : r' = r
    · subst hr
      rw [update_heap_self] at hp ⊢
      refine Finset.mem_erase.mpr ⟨?_, h.2.flagged key' hout' r' p hp⟩
      intro hk
      rw [hk] at hout'
      exact hout hout'
    · rw [update_heap_ne _ _ hr] at hp ⊢
      exact h.2.flagged key' hout' r' p hp
  have hset : ∀ st, Placed (setState changed r st _) ∧ Reported (setState changed r st _) :=
    fun st => closed_setState reported_closed hch hcleared
  unfold patientResurrected
  dsimp only
  split
  · exact hcleared
  · split
    · split
      · exact hset _
      · exact hcleared
    · split
      · exact hset _
      · split
        · exact hset _
        · exact closed_locationRecovering reported_closed hch (hset _)

/-- One event: patients stay where the clerk has them, and the coroner is called for the
    dead only, once until they are resurrected. -/
theorem step_reported {c : Config} {s t : Clerk} {e : Event} (h : Placed s ∧ Reported s)
    (hstep : step c s e = some t) : Placed t ∧ Reported t := by
  have hch : ∀ depth r s, Placed s ∧ Reported s →
      Placed (locationStateChanged c depth r s) ∧ Reported (locationStateChanged c depth r s) :=
    fun _ _ _ hs => closed_locationStateChanged reported_closed hs
  cases e with
  | added key location period =>
    dsimp only [step] at hstep
    split at hstep
    · cases hstep
    · rename_i hnot
      obtain rfl := Option.some.inj hstep
      have hnoticed := noticed (n := .added key) h fun _ _ _ he => by cases he
      exact reported_onPatientAdded hnoticed hnot (not_outstanding_added _ _)
  | removed key =>
    obtain ⟨⟨r, p⟩, hp, hstep⟩ := Option.bind_eq_some_iff.mp hstep
    obtain rfl := Option.some.inj hstep
    exact reported_onPatientRemoved (fun _ hP _ _ => closed_locationStateChanged hP) h hp
  | dying key =>
    obtain ⟨⟨r, p⟩, hp, hstep⟩ := Option.bind_eq_some_iff.mp hstep
    dsimp only at hstep
    split at hstep
    · obtain rfl := Option.some.inj hstep
      exact marked hp h
    · cases hstep
  | died key =>
    obtain ⟨⟨r, p⟩, hp, hstep⟩ := Option.bind_eq_some_iff.mp hstep
    dsimp only at hstep
    split at hstep
    · obtain rfl := Option.some.inj hstep
      apply reported_patientDied (hch _) (marked hp h) _ rfl
      rw [update_heap_self]
      exact AList.lookup_insert _
    · cases hstep
  | resurrected key =>
    obtain ⟨⟨r, p⟩, hp, hstep⟩ := Option.bind_eq_some_iff.mp hstep
    dsimp only at hstep
    split at hstep
    · obtain rfl := Option.some.inj hstep
      have hmarked : Placed (s.update r (.mark key p .alive)) ∧
          Reported (s.update r (.mark key p .alive)) := marked hp h
      have hnoticed := noticed (n := .resurrected key) hmarked fun _ _ _ he => by cases he
      exact reported_patientResurrected (hch _) hnoticed (not_outstanding_resurrected _ _)
    · cases hstep
  | relapsed key =>
    obtain ⟨⟨r, p⟩, hp, hstep⟩ := Option.bind_eq_some_iff.mp hstep
    dsimp only at hstep
    split at hstep
    · obtain rfl := Option.some.inj hstep
      exact marked hp h
    · cases hstep
  | disconnected =>
    obtain rfl := Option.some.inj hstep
    exact closed_onDisconnected reported_closed (hch _) h
  | reconnected =>
    obtain rfl := Option.some.inj hstep
    exact closed_onReconnected reported_closed (hch _) h
  | fired id =>
    obtain ⟨⟨delay, call⟩, -, hstep⟩ := Option.bind_eq_some_iff.mp hstep
    have herased := reported_closed.scheduled s (s.calls.erase id) s.locationCalls s.isolatedCall
      s.issued h
    cases call with
    | liftLocation r =>
      obtain rfl := Option.some.inj hstep
      exact closed_quarantineLifted reported_closed (hch _) herased
    | liftIsolation =>
      obtain rfl := Option.some.inj hstep
      exact closed_isoLiftQuarantine reported_closed (hch _) herased

theorem new_reported : Placed .new ∧ Reported .new := by
  refine ⟨⟨fun n r hn => ?_, fun r key p hp => ?_⟩, ⟨fun key p st hm => ?_, ?_, ?_⟩⟩
  · simp [Clerk.new] at hn
  · simp [Clerk.new, Location.new] at hp
  · simp [Clerk.new] at hm
  · intro key xs p st ys p' st' zs he
    simp [Clerk.new] at he
  · intro key hout r p hp
    simp [Clerk.new, Location.new] at hp

end Feat.Agents.Monitor
