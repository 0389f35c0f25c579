import Feat.Agents.ClerkSettling

/- When a location is isolated.

   Isolation is for locations in which everybody is dead, and those who ask for it look for
   the dying and the dead only. When a patient dies in a normal location, it was made sure
   that nobody is alive. When one dies in a recovering location, or is removed from a normal
   one, it was not. `isolated_alone_iff` says that these are the only two ways in which a
   location is isolated with somebody alive in it, and `isolated_resurrected` is a run to the
   first. -/
namespace Feat.Agents.Monitor
open Hash Transition

variable {c : Config}

/-- Where a location gets isolated, everybody is dead, and somebody is. -/
def IsolatedAlone (s t : Clerk) : Prop :=
  ∀ r, (s.heap r).state ≠ .isolated → (t.heap r).state = .isolated →
    (∀ key p, (t.heap r).patients.lookup key = some p → p.state = .dead) ∧
      ∃ key p, (t.heap r).patients.lookup key = some p ∧ p.state = .dead

/-- Nobody is alive where the last of the dying dies or is removed. -/
def NobodyAlive (c : Config) (s : Clerk) : Event → Prop
  | .died key => ∀ q ∈ s.patient key,
    let loc := (s.heap q.1).mark key q.2 .dead
    c.enableQuarantine = true → loc.state = .recovering →
      loc.countPatients c.order .dying = 0 → loc.countPatients c.order .alive = 0
  | .removed key => ∀ q ∈ s.patient key,
    let loc := (s.heap q.1).without key
    c.enableQuarantine = true → loc.state = .normal → q.2.state ≠ .dead →
      loc.countPatients c.order .dying = 0 → loc.countPatients c.order .dead > 0 →
        loc.countPatients c.order .alive = 0
  | _ => True

theorem countPatients_eq_zero {o : HashOrder String} {loc : Location} {st : PatientState} :
    loc.countPatients o st = 0 ↔ ∀ key p, loc.patients.lookup key = some p → p.state ≠ st := by
  unfold Location.countPatients
  rw [List.length_eq_zero_iff, List.eq_nil_iff_forall_not_mem]
  refine ⟨fun h key p hp hst => ?_, fun h q hq => ?_⟩
  · exact h (key, p) (mem_iterPatients.mpr ⟨hp, hst⟩)
  · obtain ⟨hp, hst⟩ := mem_iterPatients.mp hq
    exact h q.1 q.2 hp hst

/-- A location with somebody dead and nobody dying. -/
theorem everybody_dead_iff {o : HashOrder String} {loc : Location}
    (hdying : loc.countPatients o .dying = 0) (hdead : loc.countPatients o .dead > 0) :
    ((∀ key p, loc.patients.lookup key = some p → p.state = .dead) ∧
      ∃ key p, loc.patients.lookup key = some p ∧ p.state = .dead) ↔
      loc.countPatients o .alive = 0 := by
  have hsome : ∃ key p, loc.patients.lookup key = some p ∧ p.state = .dead := by
    by_contra hnone
    refine absurd (countPatients_eq_zero.mpr fun key p hp hst => ?_) (Nat.ne_of_gt hdead)
    exact hnone ⟨key, p, hp, hst⟩
  rw [countPatients_eq_zero] at hdying ⊢
  refine ⟨fun h key p hp hst => ?_, fun h => ⟨fun key p hp => ?_, hsome⟩⟩
  · rw [h.1 key p hp] at hst
    cases hst
  · cases hst : p.state with
    | dead => rfl
    | alive => exact absurd hst (h key p hp)
    | dying => exact absurd hst (hdying key p hp)

/-- What settles isolates no location. -/
theorem Settled.isolatedAlone_iff {s u v : Clerk} (h : Settled u v) :
    IsolatedAlone s v ↔ IsolatedAlone s u := by
  have hstate : ∀ r, (v.heap r).state = .isolated ↔ (u.heap r).state = .isolated := by
    intro r
    obtain hsame | ⟨hrec, hnormal⟩ := h.located r
    · rw [hsame]
    · rw [hrec, hnormal]
      simp
  unfold IsolatedAlone
  simp only [hstate, h.frame.residents]

/-- Nothing is isolated that was not before. -/
theorem isolatedAlone_of_none {s t : Clerk}
    (h : ∀ r, (t.heap r).state = .isolated → (s.heap r).state = .isolated) : IsolatedAlone s t :=
  fun r hbefore hafter => absurd (h r hafter) hbefore

/-- One location is isolated, in which somebody is dead and nobody dying. -/
theorem isolatedAlone_locate_iff {s u : Clerk} {r : Ref} (hisolates : Isolates c (u.heap r))
    (hsame : ∀ r, (u.heap r).state = (s.heap r).state) :
    IsolatedAlone s (u.locate r .isolated) ↔ (u.heap r).countPatients c.order .alive = 0 := by
  obtain ⟨hdying, hdead, hstate⟩ := hisolates
  have hpatients : ((u.locate r .isolated).heap r).patients = (u.heap r).patients := by
    rw [Clerk.locate, update_heap_self]
  rw [← everybody_dead_iff hdying hdead]
  refine ⟨fun h => ?_, fun h r' hbefore hafter => ?_⟩
  · rw [hsame] at hstate
    have hr := h r hstate (by rw [locate_state, if_pos rfl])
    rw [hpatients] at hr
    exact hr
  · rw [locate_state] at hafter
    split at hafter
    · rename_i hr
      rw [hr, hpatients]
      exact h
    · rw [hsame] at hafter
      exact absurd hafter hbefore

theorem update_same_state (s : Clerk) (r : Ref) (f : Location → Location)
    (hf : ∀ l, (f l).state = l.state) (r' : Ref) :
    ((s.update r f).heap r').state = (s.heap r').state := by
  by_cases hr : r' = r
  · subst hr
    rw [update_heap_self, hf]
  · rw [update_heap_ne _ _ hr]

/-- Whoever is added, locations are as they were, or new and normal. -/
theorem onPatientAdded_isolated (s : Clerk) (key : String) (patient : Patient) (r : Ref)
    (hr : ((onPatientAdded key patient s).heap r).state = .isolated) :
    (s.heap r).state = .isolated := by
  unfold onPatientAdded at hr
  split at hr
  rename_i r' u hwhere
  have hu : (u.heap r).state = .isolated :=
    (update_same_state u r' (fun l => { l with patients := l.patients.insert key patient })
      (fun _ => rfl) r).symm.trans hr
  split at hwhere
  · cases hwhere
    exact hu
  · cases hwhere
    by_cases hnew : r = s.created
    · subst hnew
      rw [update_heap_self] at hu
      cases hu
    · rwa [update_heap_ne _ _ hnew] at hu

/-- After a death. -/
theorem isolatedAlone_afterDeath_iff {s u : Clerk} {r : Ref}
    (hsame : ∀ r, (u.heap r).state = (s.heap r).state)
    (hdead : (u.heap r).countPatients c.order .dead > 0) :
    IsolatedAlone s (u.afterDeath c r) ↔
      (c.enableQuarantine = true → (u.heap r).state = .recovering →
        (u.heap r).countPatients c.order .dying = 0 →
        (u.heap r).countPatients c.order .alive = 0) := by
  unfold Clerk.afterDeath
  split
  · rename_i hcond
    obtain ⟨hon, hnotified, hisolates⟩ := hcond
    rw [isolatedAlone_locate_iff hisolates hsame]
    refine ⟨fun h _ _ _ => h, fun h => ?_⟩
    cases hstate : (u.heap r).state with
    | normal => exact Nat.eq_zero_of_not_pos fun hpos => hnotified ⟨hstate, hpos⟩
    | isolated => exact absurd hstate hisolates.2.2
    | recovering => exact h hon hstate hisolates.1
  · rename_i hcond
    refine iff_of_true (isolatedAlone_of_none fun r' h => ?_) fun hon hstate hdying => ?_
    · rwa [hsame] at h
    · refine absurd ⟨hon, fun h => ?_, hdying, hdead, fun h => ?_⟩ hcond
      · rw [hstate] at h
        cases h.1
      · rw [hstate] at h
        cases h

/-- After a removal. -/
theorem isolatedAlone_afterRemoval_iff {s u : Clerk} {r : Ref} {p : Patient}
    (hsame : ∀ r, (u.heap r).state = (s.heap r).state) :
    IsolatedAlone s (u.afterRemoval c r p) ↔
      (c.enableQuarantine = true → (u.heap r).state = .normal → p.state ≠ .dead →
        (u.heap r).countPatients c.order .dying = 0 →
        (u.heap r).countPatients c.order .dead > 0 →
        (u.heap r).countPatients c.order .alive = 0) := by
  unfold Clerk.afterRemoval
  split
  · rename_i hcond
    obtain ⟨hon, hstate, hp, hisolates⟩ := hcond
    rw [isolatedAlone_locate_iff hisolates hsame]
    exact ⟨fun h _ _ _ _ _ => h, fun h => h hon hstate hp hisolates.1 hisolates.2.1⟩
  · rename_i hcond
    refine iff_of_true (isolatedAlone_of_none fun r' h => ?_) fun hon hstate hp hdying hdead => ?_
    · rwa [hsame] at h
    · refine absurd ⟨hon, hstate, hp, hdying, hdead, fun h => ?_⟩ hcond
      rw [hstate] at h
      cases h

theorem isolatedAlone_step_iff {s t : Clerk} {e : Event} (hplaced : Placed s)
    (hstep : step c s e = some t) : IsolatedAlone s t ↔ NobodyAlive c s e := by
  obtain ⟨v, hv, hheap, -, -⟩ := step_direct hplaced hstep
  have hdirect : IsolatedAlone s t ↔ IsolatedAlone s (direct c s e) := by
    rw [← hv.isolatedAlone_iff]
    unfold IsolatedAlone
    rw [hheap]
  rw [hdirect]
  cases e with
  | added key location period =>
    exact iff_of_true (isolatedAlone_of_none (onPatientAdded_isolated _ _ _)) trivial
  | removed key =>
    dsimp only [direct, NobodyAlive]
    cases hp : s.patient key with
    | none => exact iff_of_true (isolatedAlone_of_none fun _ h => h) (by simp)
    | some q =>
      obtain ⟨r, p⟩ := q
      have hheap : (Clerk.update { s with patients := s.patients.erase key } r
          (.without key)).heap r = (s.heap r).without key := update_heap_self _ _ _
      have hsame : ∀ r', ((Clerk.update { s with patients := s.patients.erase key } r
          (.without key)).heap r').state = (s.heap r').state :=
        update_same_state { s with patients := s.patients.erase key } r (.without key) fun _ => rfl
      simp only [Option.mem_def, Option.some.injEq, forall_eq']
      rw [isolatedAlone_afterRemoval_iff hsame, hheap]
  | died key =>
    dsimp only [direct, NobodyAlive]
    cases hp : s.patient key with
    | none => exact iff_of_true (isolatedAlone_of_none fun _ h => h) (by simp)
    | some q =>
      obtain ⟨r, p⟩ := q
      have hheap : (s.update r (.mark key p .dead)).heap r = (s.heap r).mark key p .dead :=
        update_heap_self _ _ _
      have hsame := update_same_state s r (.mark key p .dead) fun _ => rfl
      have hdead : ((s.heap r).mark key p .dead).countPatients c.order .dead > 0 := by
        refine Nat.pos_of_ne_zero fun hzero => ?_
        exact countPatients_eq_zero.mp hzero key _ (AList.lookup_insert _) rfl
      simp only [Option.mem_def, Option.some.injEq, forall_eq']
      rw [isolatedAlone_afterDeath_iff hsame (by rwa [hheap]), hheap]
  | dying key =>
    refine iff_of_true (isolatedAlone_of_none fun r' h => ?_) trivial
    dsimp only [direct] at h
    split at h
    · rename_i r p hp
      exact (update_same_state s r (.mark key p .dying) (fun _ => rfl) r').symm.trans h
    · exact h
  | relapsed key =>
    refine iff_of_true (isolatedAlone_of_none fun r' h => ?_) trivial
    dsimp only [direct] at h
    split at h
    · rename_i r p hp
      exact (update_same_state s r (.mark key p .dying) (fun _ => rfl) r').symm.trans h
    · exact h
  | resurrected key =>
    refine iff_of_true (isolatedAlone_of_none fun r' h => ?_) trivial
    dsimp only [direct] at h
    split at h
    · rename_i r p hp
      have hmarked := update_same_state s r (.mark key p .alive) fun _ => rfl
      rw [locate_state] at h
      split at h
      · rename_i hr
        unfold Location.resurrected at h
        split at h
        · rw [hr, ← hmarked]
          exact h
        · split at h
          · cases h
          · cases h
      · rw [← hmarked]
        exact (update_same_state _ r (.forget key) (fun _ => rfl) r').symm.trans h
    · exact h
  | disconnected => exact iff_of_true (isolatedAlone_of_none fun _ h => h) trivial
  | reconnected => exact iff_of_true (isolatedAlone_of_none fun _ h => h) trivial
  | fired id =>
    refine iff_of_true (isolatedAlone_of_none fun r' h => ?_) trivial
    dsimp only [direct] at h
    split at h
    · rw [locate_state] at h
      split at h
      · cases h
      · exact h
    · exact h

/-- Locations are isolated when everybody in them is dead, throughout a run, if and only if
    nobody is alive where the last of the dying dies or is removed. -/
theorem isolated_alone_iff (c : Config) (es : List Event) (s : Clerk) :
    Run (Relating IsolatedAlone (Defined (step c))) .new es s ↔
      Run (Guarded (NobodyAlive c) (Defined (step c))) .new es s := by
  refine run_relating_iff (fun s e t (h : Placed s ∧ Reported s) hstep => step_reported h hstep)
    (fun s e t h hstep => isolatedAlone_step_iff h.1 hstep) new_reported

/-- A patient dies where another one has just been resurrected, and the location is isolated
    with the other one alive. -/
theorem isolated_resurrected : ∃ s t, Run (Defined (step localMonitor)) .new
      [.added "a" "host" 5, .added "b" "host" 5, .dying "a", .dying "b", .resurrected "a"] s ∧
      step localMonitor s (.died "b") = some t ∧ ¬ IsolatedAlone s t := by
  obtain ⟨s, hs, hrun⟩ : ∃ s, ([.added "a" "host" 5, .added "b" "host" 5, .dying "a", .dying "b",
        .resurrected "a"] : List Event).foldlM (step localMonitor) .new = some s ∧
      decide ((s.heap 0).state ≠ .isolated ∧ ∃ t ∈ step localMonitor s (.died "b"),
        (t.heap 0).state = .isolated ∧
          (t.heap 0).patients.lookup "a" = some ⟨"host", 5, .alive⟩) = true := by
    apply Option.map_eq_some_iff.mp
    decide +kernel
  obtain ⟨hbefore, t, ht, hafter, halive⟩ := of_decide_eq_true hrun
  refine ⟨s, t, run_defined hs, ht, fun h => ?_⟩
  cases (h 0 hbefore hafter).1 "a" _ halive

end Feat.Agents.Monitor
